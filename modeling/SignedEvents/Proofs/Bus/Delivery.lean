import SignedEvents.Proofs.Bus.Accounts

/-! # Delivery

  - **Sound.turn**, **Sound.expire** — turns, and publishers that give up, keep the accounts in
    order.
  - **Sound.advances_step**, **Sound.advances_run** — one move, and any number of them.
  - **Sound.seen_publish**, **seen_start** — publishes are written down as they are.
  - **delivery_exact** — what the accounts say of every run.
-/

namespace SignedEvents.History

variable {α : Type} {h h' : History α}

/-! ## Section 1: Turns -/

theorem channel_turn (h : History α) (id : ChannelId) :
    h.turn.bus.channel id = (h.bus.channel id).turn.1 := h.bus.channel_turn id

/-- The publishes that enter a channel are those whose tickets the turn gives out. -/
theorem Sound.mem_entering (hs : h.Sound) {id : ChannelId} {call : Call α} :
    call ∈ h.entering id ↔
      call ∈ h.calls ∧ ∃ ticket ∈ (h.bus.channel id).turn.2, call.receipt = .ticket ticket := by
  simp only [entering, List.mem_filterMap, hs.holder?_eq_some_iff]
  constructor
  · rintro ⟨ticket, hmem, hcall, hreceipt⟩
    exact ⟨hcall, ticket, hmem, hreceipt⟩
  · rintro ⟨hcall, ticket, hmem, hreceipt⟩
    exact ⟨ticket, hmem, hcall, hreceipt⟩

/-- Who waits before a turn waits after it or has entered, and not both. -/
theorem mem_pending_turn (h : History α) (id : ChannelId) (ticket : Nat) :
    ticket ∈ (h.bus.channel id).pending.map (·.ticket) ↔
      ticket ∈ (h.turn.bus.channel id).pending.map (·.ticket) ∨
        ticket ∈ (h.bus.channel id).turn.2 := by
  obtain ⟨entered, htickets, hadmits⟩ := (h.bus.channel id).turn_admits
  rw [channel_turn, htickets, ← List.mem_append, ← List.map_append]
  exact ((hadmits.pending_turn.map _).mem_iff).symm

theorem Sound.nodup_turn (hs : h.Sound) (id : ChannelId) :
    ((h.turn.bus.channel id).pending.map (·.ticket) ++ (h.bus.channel id).turn.2).Nodup := by
  obtain ⟨entered, htickets, hadmits⟩ := (h.bus.channel id).turn_admits
  rw [channel_turn, htickets, ← List.map_append, (hadmits.pending_turn.map _).nodup_iff]
  exact hs.alone id

/-- Who enters has published on the channel, and waited until then. -/
theorem Sound.pending_of_mem_entering (hs : h.Sound) {id : ChannelId} {call : Call α}
    (hmem : call ∈ h.entering id) :
    call ∈ h.calls ∧ call.channel = id ∧ h.report call = .waiting := by
  obtain ⟨hcall, ticket, hticket, hreceipt⟩ := hs.mem_entering.mp hmem
  have hpending := (mem_pending_turn h id ticket).mpr (.inr hticket)
  exact ⟨hcall, hs.channel_of_pending hcall hreceipt hpending,
    hs.report_of_pending hreceipt hpending⟩

theorem Sound.report_turn_put (hs : h.Sound) {call : Call α} (hcall : call ∈ h.calls) :
    h.turn.report call = .put ↔ h.report call = .put ∨ call ∈ h.entering call.channel := by
  rw [hs.mem_entering]
  unfold report
  cases hreceipt : call.receipt with
  | answer isPut => simp only [reduceCtorEq, and_false, exists_false, or_false]
  | ticket t =>
    dsimp only
    rw [Bus.report_eq_put_iff, Bus.report_eq_put_iff]
    show h.bus.turn.isDelivered t = true ↔ _
    rw [Bus.isDelivered_turn _ (hs.ticket_lt hcall hreceipt)]
    refine or_congr_right ⟨?_, ?_⟩
    · rintro ⟨id, hmem⟩
      have hpending := (mem_pending_turn h id t).mpr (.inr hmem)
      rw [hs.channel_of_pending hcall hreceipt hpending]
      exact ⟨hcall, t, hmem, rfl⟩
    · rintro ⟨-, ticket, hmem, heq⟩
      obtain rfl := Receipt.ticket.inj heq
      exact ⟨call.channel, hmem⟩

theorem Sound.report_turn_dropped (hs : h.Sound) {call : Call α} (hcall : call ∈ h.calls) :
    h.turn.report call = .dropped ↔ h.report call = .dropped := by
  unfold report
  cases hreceipt : call.receipt with
  | answer isPut => rfl
  | ticket t =>
    -- whoever enters has waited until then, and is delivered from then on
    have hsplit : (∃ id, t ∈ (h.bus.channel id).pending.map (·.ticket)) ↔
        (∃ id, t ∈ (h.bus.turn.channel id).pending.map (·.ticket)) ∨
          ∃ id, t ∈ (h.bus.channel id).turn.2 := by
      rw [← exists_or]
      exact exists_congr fun id => mem_pending_turn h id t
    dsimp only
    show h.bus.turn.report t = _ ↔ _
    rw [Bus.report_eq_dropped_iff, Bus.report_eq_dropped_iff, Bus.isWaiting_iff,
      Bus.isWaiting_iff, Bus.isDelivered_turn _ (hs.ticket_lt hcall hreceipt), hsplit]
    tauto

/-- The items of those that enter go to the end of the queue. -/
theorem Sound.queue_turn (hs : h.Sound) (id : ChannelId) :
    (h.turn.bus.channel id).queue =
      (h.bus.channel id).queue ++ (h.entering id).map (·.item) := by
  obtain ⟨entered, htickets, hadmits⟩ := (h.bus.channel id).turn_admits
  rw [channel_turn, hadmits.queue, entering, htickets, List.filterMap_map, List.map_filterMap]
  congr 1
  rw [← List.filterMap_eq_map]
  -- each publisher that enters holds the ticket of a call with its item
  refine List.filterMap_congr fun p hp => ?_
  obtain ⟨call, hcall, hreceipt, -, hitem⟩ :=
    hs.holders id p (hadmits.pending_turn.mem_iff.mp (List.mem_append_right _ hp))
  have hholder : h.holder? p.ticket = some call := hs.holder?_eq_some_iff.mpr ⟨hcall, hreceipt⟩
  show some p.item = (h.holder? p.ticket).map (·.item)
  rw [hholder, Option.map_some, hitem]

theorem Sound.nodup_entering (hs : h.Sound) (id : ChannelId) : (h.entering id).Nodup := by
  refine List.Nodup.filterMap (fun ticket ticket' call hcall hcall' => ?_)
    (List.nodup_append.mp (hs.nodup_turn id)).2.1
  have hreceipt := (hs.holder?_eq_some_iff.mp hcall).2
  have hreceipt' := (hs.holder?_eq_some_iff.mp hcall').2
  exact Receipt.ticket.inj (hreceipt.symm.trans hreceipt')

/-- Nobody starts to wait in a turn. -/
theorem mem_pending_of_turn {id : ChannelId} {p : Publisher α}
    (hp : p ∈ (h.turn.bus.channel id).pending) : p ∈ (h.bus.channel id).pending := by
  obtain ⟨entered, -, hadmits⟩ := (h.bus.channel id).turn_admits
  rw [channel_turn] at hp
  exact hadmits.pending_turn.mem_iff.mp (List.mem_append_left _ hp)

/-- A turn keeps the accounts in order. -/
theorem Sound.turn (hs : h.Sound) : h.turn.Sound where
  named := hs.named.congr rfl h.bus.length_channels_turn
  numbers := hs.numbers
  tickets := hs.tickets.trans (congrArg List.range h.bus.length_delivered_turn.symm)
  holders id p hp := hs.holders id p (mem_pending_of_turn hp)
  alone id := (List.nodup_append.mp (hs.nodup_turn id)).1
  unsent id p hp := by
    have hold := mem_pending_of_turn hp
    obtain ⟨call, hcall, hreceipt, rfl, -⟩ := hs.holders id p hold
    rw [Bool.eq_false_iff]
    intro hdelivered
    rcases (Bus.isDelivered_turn _ (hs.ticket_lt hcall hreceipt)).mp hdelivered with
      hbefore | ⟨other, hmem⟩
    · rw [hs.unsent _ p hold] at hbefore
      cases hbefore
    · -- it would have entered the channel at which it waits
      have hpending := (mem_pending_turn h other p.ticket).mpr (.inr hmem)
      obtain rfl := hs.channel_of_pending hcall hreceipt hpending
      exact (List.nodup_append.mp (hs.nodup_turn _)).2.2 _ (List.mem_map_of_mem hp) _ hmem rfl
  flow id := by
    show h.taken id ++ _ = List.map _ (h.puts id ++ h.entering id)
    rw [hs.queue_turn, List.map_append, ← hs.flow, List.append_assoc]
  once id := by
    refine (hs.once id).append (hs.nodup_entering id) fun call hput hmem => ?_
    have hreport := ((hs.settled id call).mp hput).2.2
    rw [(hs.pending_of_mem_entering hmem).2.2] at hreport
    cases hreport
  settled id call := by
    show call ∈ h.puts id ++ h.entering id ↔ call ∈ h.calls ∧ _
    rw [List.mem_append, hs.settled]
    constructor
    · rintro (⟨hcall, hid, hreport⟩ | hmem)
      · exact ⟨hcall, hid, (hs.report_turn_put hcall).mpr (.inl hreport)⟩
      · obtain ⟨hcall, hid, -⟩ := hs.pending_of_mem_entering hmem
        exact ⟨hcall, hid, (hs.report_turn_put hcall).mpr (.inr (hid ▸ hmem))⟩
    · rintro ⟨hcall, rfl, hreport⟩
      rcases (hs.report_turn_put hcall).mp hreport with hput | hmem
      · exact .inl ⟨hcall, rfl, hput⟩
      · exact .inr hmem
  dropped id := by
    obtain ⟨entered, -, hadmits⟩ := (h.bus.channel id).turn_admits
    rw [channel_turn, hadmits.dropped, hs.dropped id]
    refine List.countP_congr fun call hcall => ?_
    simp only [decide_eq_true_eq, hs.report_turn_dropped hcall]
  bounded id := by
    obtain ⟨entered, -, hadmits⟩ := (h.bus.channel id).turn_admits
    rw [channel_turn]
    exact hadmits.bounded (hs.bounded id)

theorem Sound.evolves_turn (hs : h.Sound) : h.Evolves h.turn where
  made := Nat.le_of_eq h.bus.length_channels_turn.symm
  capacity id _ := by
    obtain ⟨entered, -, hadmits⟩ := (h.bus.channel id).turn_admits
    rw [channel_turn, hadmits.capacity]
  calls := List.prefix_rfl
  puts _ := List.prefix_append _ _
  taken _ := List.prefix_rfl
  put _ hcall hreport := (hs.report_turn_put hcall).mpr (.inl hreport)
  dropped _ hcall hreport := (hs.report_turn_dropped hcall).mpr hreport

/-! ## Section 2: Publishers that give up -/

theorem channel_expire (h : History α) (ticket : Nat) (id : ChannelId) :
    (h.expire ticket).bus.channel id = (h.bus.channel id).giveUp ticket :=
  h.bus.channel_expire ticket id

/-- Whoever else waits, waits on when a ticket is given up. -/
theorem Sound.mem_pending_expire (hs : h.Sound) {ticket : Nat} {id : ChannelId}
    {p : Publisher α} :
    p ∈ ((h.expire ticket).bus.channel id).pending ↔
      p ∈ (h.bus.channel id).pending ∧ p.ticket ≠ ticket := by
  rw [channel_expire]
  by_cases hmem : ticket ∈ (h.bus.channel id).pending.map (·.ticket)
  · obtain ⟨hpending, -⟩ := Channel.giveUp_of_mem (hs.alone id) hmem
    rw [hpending.mem_iff, List.mem_filter, decide_eq_true_eq]
  · rw [Channel.giveUp_of_not_mem hmem]
    exact ⟨fun hp => ⟨hp, fun heq => hmem (List.mem_map.mpr ⟨p, hp, heq⟩)⟩, And.left⟩

theorem report_expire_put (h : History α) (ticket : Nat) (call : Call α) :
    (h.expire ticket).report call = .put ↔ h.report call = .put := by
  unfold report
  cases call.receipt with
  | answer isPut => rfl
  | ticket t =>
    dsimp only
    rw [Bus.report_eq_put_iff, Bus.report_eq_put_iff]
    rfl

theorem Sound.isWaiting_expire (hs : h.Sound) (ticket t : Nat) :
    (h.expire ticket).bus.isWaiting t = true ↔ h.bus.isWaiting t = true ∧ t ≠ ticket := by
  simp only [Bus.isWaiting_iff, List.mem_map, hs.mem_pending_expire]
  constructor
  · rintro ⟨id, p, ⟨hp, hne⟩, rfl⟩
    exact ⟨⟨id, p, hp, rfl⟩, hne⟩
  · rintro ⟨⟨id, p, hp, rfl⟩, hne⟩
    exact ⟨id, p, ⟨hp, hne⟩, rfl⟩

/-- The item of the publisher that gives up is dropped, if it has waited. -/
theorem Sound.report_expire_dropped (hs : h.Sound) (ticket : Nat) (call : Call α) :
    (h.expire ticket).report call = .dropped ↔
      h.report call = .dropped ∨
        call.receipt = .ticket ticket ∧ h.report call = .waiting := by
  unfold report
  cases call.receipt with
  | answer isPut => simp only [reduceCtorEq, false_and, or_false]
  | ticket t =>
    have hwaiting := hs.isWaiting_expire ticket t
    have hdelivered : (h.expire ticket).bus.isDelivered t = h.bus.isDelivered t := rfl
    dsimp only
    rw [Bus.report_eq_dropped_iff, Bus.report_eq_dropped_iff, Bus.report_eq_waiting_iff, hdelivered,
      hwaiting, Receipt.ticket.injEq]
    tauto

theorem countP_add_one {β : Type} {l : List β} (hl : l.Nodup) {a : β} (ha : a ∈ l)
    {p q : β → Bool} (hpa : p a = false) (hq : ∀ b ∈ l, q b = true ↔ p b = true ∨ b = a) :
    l.countP q = l.countP p + 1 := by
  obtain ⟨before, after, rfl⟩ := List.append_of_mem ha
  have hne : ∀ b ∈ before ++ after, b ≠ a := by
    rintro b hb rfl
    exact (List.nodup_cons.mp (List.nodup_middle.mp hl)).1 hb
  have hrest : ∀ b ∈ before ++ after, q b = true ↔ p b = true := by
    intro b hb
    have hmem : b ∈ before ++ a :: after := by
      rcases List.mem_append.mp hb with hb | hb
      · exact List.mem_append_left _ hb
      · exact List.mem_append_right _ (List.mem_cons_of_mem a hb)
    rw [hq b hmem, or_iff_left (hne b hb)]
  have hqa : q a = true := (hq a ha).mpr (.inr rfl)
  rw [List.countP_append, List.countP_append, List.countP_cons_of_pos hqa,
    List.countP_cons_of_neg (by rw [hpa]; exact Bool.false_ne_true),
    List.countP_congr fun b hb => hrest b (List.mem_append_left _ hb),
    List.countP_congr fun b hb => hrest b (List.mem_append_right _ hb), Nat.add_assoc]

/-- A publisher that gives up keeps the accounts in order. -/
theorem Sound.expire (hs : h.Sound) (ticket : Nat) : (h.expire ticket).Sound where
  named := hs.named.congr rfl (h.bus.length_channels_expire ticket)
  numbers := hs.numbers
  tickets := hs.tickets
  holders id p hp := hs.holders id p (hs.mem_pending_expire.mp hp).1
  alone id := by
    rw [channel_expire]
    by_cases hmem : ticket ∈ (h.bus.channel id).pending.map (·.ticket)
    · obtain ⟨hpending, -⟩ := Channel.giveUp_of_mem (hs.alone id) hmem
      rw [(hpending.map _).nodup_iff]
      exact (hs.alone id).sublist (List.filter_sublist.map _)
    · rw [Channel.giveUp_of_not_mem hmem]
      exact hs.alone id
  unsent id p hp := hs.unsent id p (hs.mem_pending_expire.mp hp).1
  flow id := by
    rw [channel_expire, (Channel.giveUp_frame _ _).1]
    exact hs.flow id
  once := hs.once
  settled id call := by
    rw [report_expire_put]
    exact hs.settled id call
  dropped id := by
    show _ = h.calls.countP _
    rw [channel_expire]
    by_cases hmem : ticket ∈ (h.bus.channel id).pending.map (·.ticket)
    · -- one more item is dropped, that of the publish which holds the ticket
      obtain ⟨p, hp, hticket⟩ := List.mem_map.mp hmem
      obtain ⟨call, hcall, hreceipt, hid, -⟩ := hs.holders id p hp
      rw [hticket] at hreceipt
      have hwaiting := hs.report_of_pending hreceipt hmem
      rw [(Channel.giveUp_of_mem (hs.alone id) hmem).2, hs.dropped id]
      refine (countP_add_one hs.calls_nodup hcall ?_ fun other hother => ?_).symm
      · simp only [hwaiting, reduceCtorEq, and_false, decide_false]
      · simp only [decide_eq_true_eq, hs.report_expire_dropped]
        constructor
        · rintro ⟨hchannel, hdropped | ⟨hreceipt', -⟩⟩
          · exact .inl ⟨hchannel, hdropped⟩
          · exact .inr (hs.eq_of_ticket hother hcall hreceipt' hreceipt)
        · rintro (⟨hchannel, hdropped⟩ | rfl)
          · exact ⟨hchannel, .inl hdropped⟩
          · exact ⟨hid, .inr ⟨hreceipt, hwaiting⟩⟩
    · rw [Channel.giveUp_of_not_mem hmem, hs.dropped id]
      refine List.countP_congr fun call hcall => ?_
      simp only [decide_eq_true_eq, hs.report_expire_dropped]
      refine and_congr_right fun hchannel => (or_iff_left ?_).symm
      rintro ⟨hreceipt, hwaiting⟩
      exact hmem (hchannel ▸ hs.pending_of_report hcall hreceipt hwaiting)
  bounded id := by
    obtain ⟨hqueue, hcapacity⟩ := (h.bus.channel id).giveUp_frame ticket
    rw [channel_expire, Channel.IsBounded, Channel.depth, hqueue, hcapacity]
    exact hs.bounded id

theorem Sound.evolves_expire (hs : h.Sound) (ticket : Nat) : h.Evolves (h.expire ticket) where
  made := Nat.le_of_eq (h.bus.length_channels_expire ticket).symm
  capacity id _ := by
    rw [channel_expire, (Channel.giveUp_frame _ _).2]
  calls := List.prefix_rfl
  puts _ := List.prefix_rfl
  taken _ := List.prefix_rfl
  put call _ hreport := (h.report_expire_put ticket call).mpr hreport
  dropped call _ hreport := (hs.report_expire_dropped ticket call).mpr (.inl hreport)

/-! ## Section 3: Runs -/

/-- A history that goes on keeps its accounts in order, and nothing that was seen changes. -/
structure Advances (h h' : History α) : Prop where
  sound   : h'.Sound
  evolves : h.Evolves h'

theorem Advances.trans {h'' : History α} (hfirst : h.Advances h') (hthen : h'.Advances h'') :
    h.Advances h'' :=
  ⟨hthen.sound, hfirst.evolves.trans hthen.evolves⟩

theorem Quiet.advances (hq : h.Quiet h') (hs : h.Sound) : h.Advances h' :=
  ⟨hq.sound hs, hq.evolves⟩

theorem Sound.advances_turn (hs : h.Sound) : h.Advances h.turn := ⟨hs.turn, hs.evolves_turn⟩

/-- A publish that puts its item if there is room. -/
theorem Sound.advances_try (hs : h.Sound) {id : ChannelId} (hid : id < h.bus.channels.length)
    (item : α) (hasTicket : Bool) :
    h.Advances (h.post id item hasTicket (!(h.bus.channel id).isFull)) :=
  ⟨hs.post hid fun hroom => (Bool.not_eq_true' _).mp hroom, hs.evolves_post hid⟩

/-- A publish that does not put its item. -/
theorem Sound.advances_keep (hs : h.Sound) {id : ChannelId} (hid : id < h.bus.channels.length)
    (item : α) (hasTicket : Bool) : h.Advances (h.post id item hasTicket false) :=
  ⟨hs.post hid fun hput => absurd hput Bool.false_ne_true, hs.evolves_post hid⟩

theorem Sound.advances_publish (hs : h.Sound) (name : Text) (item : α) (mode : Mode) :
    h.Advances (h.publish name item mode) := by
  have hsubscribe := (h.quiet_subscribe name).advances hs
  have hid := hs.named.subscribe_lt name
  refine hsubscribe.trans ?_
  have hs := hsubscribe.sound
  unfold publish
  cases mode with
  | immediate => exact hs.advances_try hid item false
  | untilRoom =>
    dsimp only
    split
    · have hwait := hs.advances_keep hid item true
      exact hwait.trans hwait.sound.advances_turn
    · exact hs.advances_try hid item false
  | within seconds =>
    have hid : _ < (h.subscribe name).turn.bus.channels.length :=
      Nat.lt_of_lt_of_eq hid (Bus.length_channels_turn _).symm
    refine hs.advances_turn.trans ?_
    dsimp only
    split
    · exact hs.turn.advances_keep hid item false
    · split
      · exact hs.turn.advances_keep hid item true
      · exact hs.turn.advances_try hid item false

theorem Sound.advances_start (hs : h.Sound) (name : Text) (item : α) :
    h.Advances (h.start name item) := by
  have hsubscribe := (h.quiet_subscribe name).advances hs
  have hs' := hsubscribe.sound
  have hid : _ < (h.subscribe name).turn.bus.channels.length :=
    Nat.lt_of_lt_of_eq (hs.named.subscribe_lt name) (Bus.length_channels_turn _).symm
  refine (hsubscribe.trans hs'.advances_turn).trans ?_
  exact hs'.turn.advances_try hid item true

/-- Every move keeps the accounts in order. -/
theorem Sound.advances_step (hs : h.Sound) (a : Bus.Action α) : h.Advances (h.step a) := by
  cases a with
  | register name capacity => exact (h.quiet_register name capacity).advances hs
  | subscribe name => exact (h.quiet_subscribe name).advances hs
  | publish name item mode => exact hs.advances_publish name item mode
  | start name item => exact hs.advances_start name item
  | expire ticket => exact ⟨hs.expire ticket, hs.evolves_expire ticket⟩
  | get id => exact (h.quiet_get id).advances hs
  | turn => exact hs.advances_turn

theorem Sound.advances_run (hs : h.Sound) (actions : List (Bus.Action α)) :
    h.Advances (h.run actions) := by
  -- the accounts carry the induction: a move is only known to keep them if they are in order
  induction actions generalizing h with
  | nil => exact ⟨hs, .refl h⟩
  | cons a rest ih =>
    have hstep := hs.advances_step a
    exact hstep.trans (ih hstep.sound)

/-- Before the first move there is nothing to account for. -/
theorem sound_ofCapacity (defaultCapacity : Int) :
    (ofCapacity defaultCapacity : History α).Sound := by
  -- a bus without channels, before the standard names are registered
  let start : History α :=
    { bus := ⟨defaultCapacity, [], [], []⟩, calls := [], puts := fun _ => [], taken := fun _ => [] }
  have hstart : start.Sound :=
    { named := fun _ _ hid => nomatch hid
      numbers := rfl
      tickets := rfl
      holders := fun _ _ hp => nomatch hp
      alone := fun _ => List.nodup_nil
      unsent := fun _ _ hp => nomatch hp
      flow := fun _ => rfl
      once := fun _ => List.nodup_nil
      settled := fun _ _ => ⟨nofun, fun hmem => nomatch hmem.1⟩
      dropped := fun _ => rfl
      bounded := fun _ => Channel.isBounded_ofCapacity defaultCapacity }
  have hevents := (start.quiet_register "events_out" none).sound hstart
  exact ((start.register "events_out" none).quiet_register "notices" none).sound hevents

/-! ## Section 4: What is written down -/

/-- The report on an offer is the answer that it gets. -/
theorem report_offer (h : History α) (id : ChannelId) (item : α) :
    (h.offer id item).report (h.newCall id item false (!(h.bus.channel id).isFull)) =
      (h.bus.offer id item).2 := by
  unfold Bus.offer
  dsimp only
  cases hfull : (h.bus.channel id).isFull <;> rfl

/-- A publish that finds no room waits through the turn that follows: it has not been woken. -/
theorem Sound.report_wait (hs : h.Sound) {id : ChannelId} (hid : id < h.bus.channels.length)
    (item : α) :
    (h.post id item true false).turn.report (h.newCall id item true false) = .waiting := by
  have hs' : (h.post id item true false).Sound := (hs.advances_keep hid item true).sound
  have hcall : h.newCall id item true false ∈ (h.post id item true false).calls :=
    List.mem_append_right _ (List.mem_singleton.mpr rfl)
  have hreport : (h.post id item true false).report (h.newCall id item true false) = .waiting :=
    report_post_new hid
  have houtside : h.newCall id item true false ∉
      (h.post id item true false).entering (h.newCall id item true false).channel := by
    intro hmem
    -- only those enter that were woken before, and their tickets are older
    obtain ⟨-, ticket, hticket, hreceipt⟩ := hs'.mem_entering.mp hmem
    obtain rfl : h.bus.delivered.length = ticket := Receipt.ticket.inj hreceipt
    obtain ⟨entered, htickets, hadmits⟩ :=
      ((h.post id item true false).bus.channel id).turn_admits
    have hsame : ((h.post id item true false).bus.channel id).woken = (h.bus.channel id).woken := by
      rw [channel_post hid, if_pos rfl]
      rfl
    have hticket : h.bus.delivered.length ∈ entered.map (·.ticket) := htickets ▸ hticket
    obtain ⟨p, hp, hlength⟩ := List.mem_map.mp hticket
    have hpending : p ∈ (h.bus.channel id).pending :=
      List.mem_append_right _ (hsame ▸ hadmits.subset hp)
    have hlt := hs.pending_lt (List.mem_map_of_mem hpending)
    exact Nat.ne_of_lt hlt hlength
  cases hlater : (h.post id item true false).turn.report (h.newCall id item true false) with
  | waiting => rfl
  | put =>
    rcases (hs'.report_turn_put hcall).mp hlater with hput | hmem
    · rw [hreport] at hput
      cases hput
    · exact absurd hmem houtside
  | dropped =>
    have hdropped := (hs'.report_turn_dropped hcall).mp hlater
    rw [hreport] at hdropped
    cases hdropped

/-- Every publish is written down with its channel and its item, and the report on it is what the
    publish gives out. -/
theorem Sound.seen_publish (hs : h.Sound) (name : Text) (item : α) (mode : Mode) :
    ∃ call, (h.publish name item mode).calls = h.calls ++ [call] ∧
      call.channel = (h.bus.subscribe name).2 ∧ call.item = item ∧
      (h.publish name item mode).report call = (h.bus.publish name item mode).2 := by
  have hid := hs.named.subscribe_lt name
  have hs' := ((h.quiet_subscribe name).advances hs).sound
  unfold publish Bus.publish Bus.deliver
  cases mode with
  | immediate => exact ⟨_, rfl, rfl, rfl, report_offer _ _ _⟩
  | untilRoom =>
    dsimp only [subscribe]
    by_cases hfull : ((h.bus.subscribe name).1.channel (h.bus.subscribe name).2).isFull = true
    · rw [if_pos hfull, if_pos hfull]
      exact ⟨_, rfl, rfl, rfl, hs'.report_wait hid item⟩
    · rw [if_neg hfull, if_neg hfull]
      exact ⟨_, rfl, rfl, rfl, report_offer _ _ _⟩
  | within seconds =>
    have hturn : _ < (h.subscribe name).turn.bus.channels.length :=
      Nat.lt_of_lt_of_eq hid (Bus.length_channels_turn _).symm
    dsimp only [subscribe, turn]
    by_cases hnone : seconds.isAtMost 0 = true
    · rw [if_pos hnone, if_pos hnone]
      exact ⟨_, rfl, rfl, rfl, rfl⟩
    · rw [if_neg hnone, if_neg hnone]
      by_cases hforever : seconds = .infinite false ∧
          ((h.bus.subscribe name).1.turn.channel (h.bus.subscribe name).2).isFull = true
      · rw [if_pos hforever]
        exact ⟨_, congrArg calls (if_pos hforever), rfl, rfl,
          (congrArg (report · _) (if_pos hforever)).trans (report_post_new hturn)⟩
      · rw [if_neg hforever]
        exact ⟨_, congrArg calls (if_neg hforever), rfl, rfl,
          (congrArg (report · _) (if_neg hforever)).trans (report_offer _ _ _)⟩

/-- A publish that starts is written down with the ticket that it gives out. -/
theorem seen_start (h : History α) (name : Text) (item : α) :
    ∃ call, (h.start name item).calls = h.calls ++ [call] ∧
      call.channel = (h.bus.subscribe name).2 ∧ call.item = item ∧
      call.receipt = .ticket (h.bus.start name item).2 :=
  ⟨_, rfl, rfl, rfl, rfl⟩

/-- In every run, for every channel that was ever made: the items taken from it, followed by those
    in its queue, are the items that were put into it, in the order of the puts.  The publishes that
    put their items are exactly those that are told so, each once; its counter counts those that
    are told that their items were dropped; and its queue keeps to its capacity, which does not
    change.  What a publish has been told once, it is told ever after, and nothing that was put or
    taken changes.  Publishes and items are written down as the moves give them out. -/
theorem delivery_exact (defaultCapacity : Int) (actions later : List (Bus.Action α)) :
    let h := (ofCapacity defaultCapacity).run actions
    h.bus = (Bus.ofCapacity defaultCapacity).run actions ∧
    h.calls.map (·.number) = List.range h.calls.length ∧
    (∀ id, h.taken id ++ (h.bus.channel id).queue = (h.puts id).map (·.item) ∧
      (h.puts id).Nodup ∧
      (∀ call, call ∈ h.puts id ↔
        call ∈ h.calls ∧ call.channel = id ∧ h.report call = .put) ∧
      (h.bus.channel id).dropped =
        h.calls.countP (fun call => call.channel = id ∧ h.report call = .dropped) ∧
      (0 < (h.bus.channel id).capacity →
        ((h.bus.channel id).depth : Int) ≤ (h.bus.channel id).capacity)) ∧
    h.Evolves (h.run later) ∧
    (∀ name item mode, ∃ call, (h.step (.publish name item mode)).calls = h.calls ++ [call] ∧
      call.channel = (h.bus.subscribe name).2 ∧ call.item = item ∧
      (h.step (.publish name item mode)).report call = (h.bus.publish name item mode).2) ∧
    (∀ name item, ∃ call, (h.step (.start name item)).calls = h.calls ++ [call] ∧
      call.channel = (h.bus.subscribe name).2 ∧ call.item = item ∧
      call.receipt = .ticket (h.bus.start name item).2) ∧
    ∀ id, (h.step (.get id)).taken id = h.taken id ++ (h.bus.get id).2.toList := by
  intro h
  have hs : h.Sound := ((sound_ofCapacity defaultCapacity).advances_run actions).sound
  refine ⟨run_bus _ actions, hs.numbers, fun id => ?_, (hs.advances_run later).evolves,
    hs.seen_publish, h.seen_start, fun id => ?_⟩
  · exact ⟨hs.flow id, hs.once id, hs.settled id, hs.dropped id, hs.bounded id⟩
  · show h.taken id ++ (if id = id then _ else _) = _
    rw [if_pos rfl]

end SignedEvents.History
