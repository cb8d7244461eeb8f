import Mathlib.Data.List.Pairwise
import SignedEvents.Proofs.Bus.History

/-! # Accounts of a history

  - **Sound** — the accounts of a history are in order.
  - **Evolves** — what has been put, dropped or taken stays so.
  - **Quiet** — a move that no publish notices.
  - **Quiet.sound**, **Sound.post** — such moves, and publishes, keep the accounts in order.
-/

namespace SignedEvents.History

variable {α : Type} {h h' : History α}

/-! ## Section 1: Accounts -/

/-- The accounts of a history are in order. -/
structure Sound (h : History α) : Prop where
  /-- Every name stands for a channel that there is. -/
  named   : h.bus.IsNamed
  /-- The publishes are numbered. -/
  numbers : h.calls.map (·.number) = List.range h.calls.length
  /-- Every ticket has been given to one publish. -/
  tickets : h.calls.filterMap (·.receipt.ticket?) = List.range h.bus.delivered.length
  /-- Whoever waits holds a ticket, and waits at the right channel with the right item. -/
  holders : ∀ id, ∀ p ∈ (h.bus.channel id).pending,
    ∃ call ∈ h.calls, call.receipt = .ticket p.ticket ∧ call.channel = id ∧ call.item = p.item
  /-- Nobody waits twice. -/
  alone   : ∀ id, ((h.bus.channel id).pending.map (·.ticket)).Nodup
  /-- Nobody waits whose item has been put. -/
  unsent  : ∀ id, ∀ p ∈ (h.bus.channel id).pending, h.bus.isDelivered p.ticket = false
  /-- Items go through a channel in the order in which they were put. -/
  flow    : ∀ id, h.taken id ++ (h.bus.channel id).queue = (h.puts id).map (·.item)
  /-- No publish puts its item twice. -/
  once    : ∀ id, (h.puts id).Nodup
  /-- The publishes that have put their items are those that are told so. -/
  settled : ∀ id call, call ∈ h.puts id ↔
    call ∈ h.calls ∧ call.channel = id ∧ h.report call = .put
  /-- A channel counts the publishes that are told that their items were dropped. -/
  dropped : ∀ id, (h.bus.channel id).dropped =
    h.calls.countP fun call => call.channel = id ∧ h.report call = .dropped
  /-- No bounded queue exceeds its capacity. -/
  bounded : ∀ id, (h.bus.channel id).IsBounded

namespace Sound

theorem calls_nodup (hs : h.Sound) : h.calls.Nodup := by
  have hnumbers : (h.calls.map (·.number)).Nodup := by
    rw [hs.numbers]
    exact List.nodup_range
  exact hnumbers.of_map

theorem number_lt (hs : h.Sound) {call : Call α} (hcall : call ∈ h.calls) :
    call.number < h.calls.length := by
  have hmem : call.number ∈ h.calls.map (·.number) := List.mem_map_of_mem hcall
  rw [hs.numbers] at hmem
  exact List.mem_range.mp hmem

/-- A new call is none of the old ones. -/
theorem newCall_not_mem (hs : h.Sound) (id : ChannelId) (item : α) (hasTicket isPut : Bool) :
    h.newCall id item hasTicket isPut ∉ h.calls :=
  fun hmem => Nat.lt_irrefl _ (hs.number_lt hmem)

theorem ticket_lt (hs : h.Sound) {call : Call α} (hcall : call ∈ h.calls) {ticket : Nat}
    (hticket : call.receipt = .ticket ticket) : ticket < h.bus.delivered.length := by
  have hmem : ticket ∈ h.calls.filterMap (·.receipt.ticket?) :=
    List.mem_filterMap.mpr ⟨call, hcall, by rw [hticket]; rfl⟩
  rw [hs.tickets] at hmem
  exact List.mem_range.mp hmem

/-- Whoever waits holds a ticket that has been given out. -/
theorem pending_lt (hs : h.Sound) {id : ChannelId} {ticket : Nat}
    (hmem : ticket ∈ (h.bus.channel id).pending.map (·.ticket)) :
    ticket < h.bus.delivered.length := by
  obtain ⟨p, hp, rfl⟩ := List.mem_map.mp hmem
  obtain ⟨call, hcall, hticket, -⟩ := hs.holders id p hp
  exact hs.ticket_lt hcall hticket

/-- No two publishes hold one ticket. -/
theorem eq_of_ticket (hs : h.Sound) {call other : Call α} (hcall : call ∈ h.calls)
    (hother : other ∈ h.calls) {ticket : Nat} (hticket : call.receipt = .ticket ticket)
    (hticket' : other.receipt = .ticket ticket) : call = other := by
  by_contra hne
  -- tickets were given out in order, each to one call
  have hdistinct : (h.calls.filterMap (·.receipt.ticket?)).Pairwise (· ≠ ·) := by
    rw [hs.tickets]
    exact List.nodup_range
  rw [List.pairwise_filterMap] at hdistinct
  have : Std.Symm fun a b : Call α => ∀ t, a.receipt.ticket? = some t →
      ∀ t', b.receipt.ticket? = some t' → t ≠ t' :=
    ⟨fun a b hab t ht t' ht' heq => hab t' ht' t ht heq.symm⟩
  have hapart := hdistinct.forall hcall hother hne
  exact hapart ticket (by rw [hticket]; rfl) ticket (by rw [hticket']; rfl) rfl

theorem holder?_eq_some_iff (hs : h.Sound) {ticket : Nat} {call : Call α} :
    h.holder? ticket = some call ↔ call ∈ h.calls ∧ call.receipt = .ticket ticket := by
  constructor
  · intro hfind
    exact ⟨List.mem_of_find?_eq_some hfind, of_decide_eq_true (List.find?_some hfind :)⟩
  · rintro ⟨hmem, hticket⟩
    cases hfind : h.holder? ticket with
    | none => exact absurd (decide_eq_true hticket) (List.find?_eq_none.mp hfind call hmem)
    | some other =>
      have hother := List.mem_of_find?_eq_some hfind
      have hticket' : other.receipt = .ticket ticket :=
        of_decide_eq_true (List.find?_some hfind :)
      rw [hs.eq_of_ticket hother hmem hticket' hticket]

/-- Who waits at a channel has published on it. -/
theorem channel_of_pending (hs : h.Sound) {id : ChannelId} {call : Call α}
    (hcall : call ∈ h.calls) {ticket : Nat} (hticket : call.receipt = .ticket ticket)
    (hmem : ticket ∈ (h.bus.channel id).pending.map (·.ticket)) : call.channel = id := by
  obtain ⟨p, hp, rfl⟩ := List.mem_map.mp hmem
  obtain ⟨other, hother, hticket', hid, -⟩ := hs.holders id p hp
  rw [hs.eq_of_ticket hcall hother hticket hticket']
  exact hid

/-- Whoever waits is reported to wait. -/
theorem report_of_pending (hs : h.Sound) {id : ChannelId} {call : Call α} {ticket : Nat}
    (hticket : call.receipt = .ticket ticket)
    (hmem : ticket ∈ (h.bus.channel id).pending.map (·.ticket)) : h.report call = .waiting := by
  have hwaiting : h.bus.isWaiting ticket = true := (Bus.isWaiting_iff _ _).mpr ⟨id, hmem⟩
  obtain ⟨p, hp, rfl⟩ := List.mem_map.mp hmem
  rw [report, hticket]
  exact (Bus.report_eq_waiting_iff _ _).mpr ⟨Bool.eq_false_iff.mp (hs.unsent id p hp), hwaiting⟩

/-- Whoever is reported to wait waits at the channel on which it has published. -/
theorem pending_of_report (hs : h.Sound) {call : Call α} (hcall : call ∈ h.calls) {ticket : Nat}
    (hticket : call.receipt = .ticket ticket) (hreport : h.report call = .waiting) :
    ticket ∈ (h.bus.channel call.channel).pending.map (·.ticket) := by
  rw [report, hticket] at hreport
  obtain ⟨id, hmem⟩ :=
    (Bus.isWaiting_iff _ _).mp ((Bus.report_eq_waiting_iff _ _).mp hreport).2
  rw [hs.channel_of_pending hcall hticket hmem]
  exact hmem

end Sound

/-! ## Section 2: What stays -/

/-- What has been seen stays so: channels keep their capacities, publishes and puts and gets are
    added at the end, and what has been put or dropped stays put or dropped. -/
structure Evolves (h h' : History α) : Prop where
  made     : h.bus.channels.length ≤ h'.bus.channels.length
  capacity : ∀ id < h.bus.channels.length,
    (h'.bus.channel id).capacity = (h.bus.channel id).capacity
  calls    : h.calls <+: h'.calls
  puts     : ∀ id, h.puts id <+: h'.puts id
  taken    : ∀ id, h.taken id <+: h'.taken id
  put      : ∀ call ∈ h.calls, h.report call = .put → h'.report call = .put
  dropped  : ∀ call ∈ h.calls, h.report call = .dropped → h'.report call = .dropped

theorem Evolves.refl (h : History α) : h.Evolves h where
  made := Nat.le_refl _
  capacity _ _ := rfl
  calls := List.prefix_rfl
  puts _ := List.prefix_rfl
  taken _ := List.prefix_rfl
  put _ _ hreport := hreport
  dropped _ _ hreport := hreport

theorem Evolves.trans {h'' : History α} (hfirst : h.Evolves h') (hthen : h'.Evolves h'') :
    h.Evolves h'' where
  made := Nat.le_trans hfirst.made hthen.made
  capacity id hid :=
    (hthen.capacity id (Nat.lt_of_lt_of_le hid hfirst.made)).trans (hfirst.capacity id hid)
  calls := hfirst.calls.trans hthen.calls
  puts id := (hfirst.puts id).trans (hthen.puts id)
  taken id := (hfirst.taken id).trans (hthen.taken id)
  put call hcall hreport :=
    hthen.put call (hfirst.calls.subset hcall) (hfirst.put call hcall hreport)
  dropped call hcall hreport :=
    hthen.dropped call (hfirst.calls.subset hcall) (hfirst.dropped call hcall hreport)

/-! ## Section 3: Moves that no publish notices -/

/-- A move that no publish notices: channels are made, or an item is taken. -/
structure Quiet (h h' : History α) : Prop where
  named     : h.bus.IsNamed → h'.bus.IsNamed
  made      : h.bus.channels.length ≤ h'.bus.channels.length
  capacity  : ∀ id < h.bus.channels.length,
    (h'.bus.channel id).capacity = (h.bus.channel id).capacity
  calls     : h'.calls = h.calls
  puts      : h'.puts = h.puts
  taken     : ∀ id, h.taken id <+: h'.taken id
  delivered : h'.bus.delivered = h.bus.delivered
  pending   : ∀ id, (h'.bus.channel id).pending.Perm (h.bus.channel id).pending
  flow      : ∀ id, h'.taken id ++ (h'.bus.channel id).queue =
    h.taken id ++ (h.bus.channel id).queue
  dropped   : ∀ id, (h'.bus.channel id).dropped = (h.bus.channel id).dropped
  bounded   : ∀ id, (h.bus.channel id).IsBounded → (h'.bus.channel id).IsBounded

namespace Quiet

theorem isDelivered (hq : h.Quiet h') (ticket : Nat) :
    h'.bus.isDelivered ticket = h.bus.isDelivered ticket := by
  rw [Bus.isDelivered, hq.delivered, Bus.isDelivered]

theorem report (hq : h.Quiet h') : h'.report = h.report := by
  funext call
  unfold History.report
  cases call.receipt with
  | answer isPut => rfl
  | ticket t =>
    exact Bus.report_congr (hq.isDelivered t) fun id => ((hq.pending id).map _).mem_iff

theorem evolves (hq : h.Quiet h') : h.Evolves h' where
  made := hq.made
  capacity := hq.capacity
  calls := hq.calls ▸ List.prefix_rfl
  puts _ := hq.puts ▸ List.prefix_rfl
  taken := hq.taken
  put call _ hreport := by rwa [hq.report]
  dropped call _ hreport := by rwa [hq.report]

theorem sound (hq : h.Quiet h') (hs : h.Sound) : h'.Sound where
  named := hq.named hs.named
  numbers := by rw [hq.calls, hs.numbers]
  tickets := by rw [hq.calls, hq.delivered, hs.tickets]
  holders id p hp := by
    rw [hq.calls]
    exact hs.holders id p ((hq.pending id).mem_iff.mp hp)
  alone id := (((hq.pending id).map _).nodup_iff).mpr (hs.alone id)
  unsent id p hp := by
    rw [hq.isDelivered]
    exact hs.unsent id p ((hq.pending id).mem_iff.mp hp)
  flow id := by rw [hq.flow, hq.puts, hs.flow]
  once id := by
    rw [hq.puts]
    exact hs.once id
  settled id call := by rw [hq.puts, hq.calls, hq.report, hs.settled]
  dropped id := by rw [hq.dropped, hq.calls, hq.report, hs.dropped]
  bounded id := hq.bounded id (hs.bounded id)

end Quiet

theorem quiet_register (h : History α) (name : Text) (capacity : Option Int) :
    h.Quiet (h.register name capacity) where
  named hnamed := hnamed.register name capacity
  made := by
    show _ ≤ (h.bus.channels ++ [_]).length
    rw [List.length_append]
    exact Nat.le_add_right _ _
  capacity id hid := by
    show ((h.bus.register name capacity).1.channel id).capacity = _
    rw [Bus.channel_register, if_neg (Nat.ne_of_lt hid)]
  calls := rfl
  puts := rfl
  taken _ := List.prefix_rfl
  delivered := rfl
  pending id := by rw [register, (h.bus.channel_register_same name capacity id).2.1]
  flow id := by rw [register, (h.bus.channel_register_same name capacity id).1]
  dropped id := (h.bus.channel_register_same name capacity id).2.2.1
  bounded id := (h.bus.channel_register_same name capacity id).2.2.2

theorem quiet_subscribe (h : History α) (name : Text) : h.Quiet (h.subscribe name) := by
  rcases h.bus.subscribe_cases name with ⟨id, -, heq⟩ | ⟨-, heq⟩
  · have hsame : h.subscribe name = h := by
      rw [subscribe, heq]
    rw [hsame]
    exact
      { named := fun hnamed => hnamed
        made := Nat.le_refl _
        capacity := fun _ _ => rfl
        calls := rfl
        puts := rfl
        taken := fun _ => List.prefix_rfl
        delivered := rfl
        pending := fun _ => .refl _
        flow := fun _ => rfl
        dropped := fun _ => rfl
        bounded := fun _ hbounded => hbounded }
  · have hregister : h.subscribe name = h.register name none := by
      rw [subscribe, heq, register]
    rw [hregister]
    exact h.quiet_register name none

theorem quiet_get (h : History α) (id : ChannelId) : h.Quiet (h.get id) where
  named hnamed := hnamed.congr (h.bus.get_frame id).1 (h.bus.get_frame id).2.2
  made := Nat.le_of_eq (h.bus.get_frame id).2.2.symm
  capacity other _ := (h.bus.channel_get id other).capacity
  calls := rfl
  puts := rfl
  taken _ := List.prefix_append _ _
  delivered := (h.bus.get_frame id).2.1
  pending other := (h.bus.channel_get id other).pending
  flow other := by
    rw [← (h.bus.channel_get id other).queue, ← List.append_assoc]
    rfl
  dropped other := (h.bus.channel_get id other).dropped
  bounded other := (h.bus.channel_get id other).bounded

/-! ## Section 4: Publishes -/

section Post

variable {id : ChannelId} {item : α} {hasTicket isPut : Bool}

theorem channel_post (hid : id < h.bus.channels.length) (other : ChannelId) :
    (h.post id item hasTicket isPut).bus.channel other =
      if other = id then h.posted id item hasTicket isPut else h.bus.channel other :=
  h.bus.channel_setChannel hid _ other

theorem posted_queue (h : History α) :
    (h.posted id item hasTicket isPut).queue =
      (h.bus.channel id).queue ++ if isPut then [item] else [] := by
  unfold posted
  cases isPut with
  | true => rfl
  | false => cases hasTicket <;> exact (List.append_nil _).symm

theorem posted_dropped (h : History α) :
    (h.posted id item hasTicket isPut).dropped =
      (h.bus.channel id).dropped + if isPut || hasTicket then 0 else 1 := by
  unfold posted
  cases isPut <;> cases hasTicket <;> rfl

/-- Whoever neither puts its item nor gets an answer waits. -/
theorem posted_pending (h : History α) :
    (h.posted id item hasTicket isPut).pending.Perm
      (if hasTicket && !isPut then
        ⟨h.bus.delivered.length, item⟩ :: (h.bus.channel id).pending
      else (h.bus.channel id).pending) := by
  unfold posted
  cases isPut with
  | true => cases hasTicket <;> exact .refl _
  | false =>
    cases hasTicket with
    | true => exact Channel.pending_wait _ _
    | false => exact .refl _

theorem posted_capacity (h : History α) :
    (h.posted id item hasTicket isPut).capacity = (h.bus.channel id).capacity := by
  unfold posted
  cases isPut <;> cases hasTicket <;> rfl

theorem posted_bounded (hbounded : (h.bus.channel id).IsBounded)
    (hroom : isPut = true → (h.bus.channel id).isFull = false) :
    (h.posted id item hasTicket isPut).IsBounded := by
  unfold posted
  cases isPut with
  | true => exact .put (hroom rfl) item
  | false => cases hasTicket <;> exact hbounded

/-- Who waits after a publish has waited before, or is the publisher itself. -/
theorem mem_pending_post (hid : id < h.bus.channels.length) {other : ChannelId}
    {p : Publisher α} :
    p ∈ ((h.post id item hasTicket isPut).bus.channel other).pending ↔
      p ∈ (h.bus.channel other).pending ∨
        hasTicket = true ∧ isPut = false ∧ other = id ∧ p = ⟨h.bus.delivered.length, item⟩ := by
  rw [channel_post hid]
  by_cases hother : other = id
  · rw [if_pos hother, h.posted_pending.mem_iff, hother]
    cases isPut <;> cases hasTicket <;> simp [or_comm]
  · simp only [hother, if_false, false_and, and_false, or_false]

theorem isDelivered_post_old {ticket : Nat} (hlt : ticket < h.bus.delivered.length) :
    (h.post id item hasTicket isPut).bus.isDelivered ticket = h.bus.isDelivered ticket :=
  List.getD_append _ _ _ _ hlt

theorem isDelivered_post_new :
    (h.post id item true isPut).bus.isDelivered h.bus.delivered.length = isPut := by
  show (h.bus.delivered ++ [isPut]).getD h.bus.delivered.length false = isPut
  rw [List.getD_append_right _ _ _ _ (Nat.le_refl _), Nat.sub_self]
  rfl

/-- A new publish does not change what is reported to the others. -/
theorem Sound.report_post_old (hs : h.Sound) (hid : id < h.bus.channels.length) {call : Call α}
    (hcall : call ∈ h.calls) :
    (h.post id item hasTicket isPut).report call = h.report call := by
  unfold report
  cases hreceipt : call.receipt with
  | answer isPut => rfl
  | ticket t =>
    have hlt := hs.ticket_lt hcall hreceipt
    refine Bus.report_congr (isDelivered_post_old hlt) fun other => ?_
    simp only [List.mem_map, mem_pending_post hid]
    constructor
    · rintro ⟨p, hp | ⟨-, -, -, rfl⟩, rfl⟩
      · exact ⟨p, hp, rfl⟩
      · exact absurd hlt (Nat.lt_irrefl _)
    · rintro ⟨p, hp, rfl⟩
      exact ⟨p, .inl hp, rfl⟩

theorem report_post_new (hid : id < h.bus.channels.length) :
    (h.post id item hasTicket isPut).report (h.newCall id item hasTicket isPut) =
      if isPut then .put else if hasTicket then .waiting else .dropped := by
  cases hasTicket with
  | false => rfl
  | true =>
    show (h.post id item true isPut).bus.report h.bus.delivered.length = _
    rw [Bus.report, isDelivered_post_new]
    cases isPut with
    | true => rfl
    | false =>
      have hwaiting : (h.post id item true false).bus.isWaiting h.bus.delivered.length = true := by
        have hmem : ⟨h.bus.delivered.length, item⟩ ∈
            ((h.post id item true false).bus.channel id).pending :=
          (mem_pending_post hid).mpr (.inr ⟨rfl, rfl, rfl, rfl⟩)
        exact (Bus.isWaiting_iff _ _).mpr ⟨id, List.mem_map_of_mem hmem⟩
      rw [hwaiting]

/-- After a publish, those that have put their items are again those that are told so. -/
theorem Sound.settled_post (hs : h.Sound) (hid : id < h.bus.channels.length) (other : ChannelId)
    (call : Call α) :
    call ∈ (h.post id item hasTicket isPut).puts other ↔
      call ∈ (h.post id item hasTicket isPut).calls ∧ call.channel = other ∧
        (h.post id item hasTicket isPut).report call = .put := by
  have hnew := hs.newCall_not_mem id item hasTicket isPut
  show call ∈ h.puts other ++ _ ↔ call ∈ h.calls ++ [_] ∧ _
  rw [List.mem_append, List.mem_append, hs.settled]
  by_cases hcall : call ∈ h.calls
  · -- nothing changes for the calls before
    have hne : call ≠ h.newCall id item hasTicket isPut := fun heq => hnew (heq ▸ hcall)
    have hnot : call ∉ if isPut = true ∧ other = id then [h.newCall id item hasTicket isPut]
        else [] := by
      split
      · exact fun hmem => hne (List.mem_singleton.mp hmem)
      · exact List.not_mem_nil
    rw [hs.report_post_old hid hcall]
    simp only [hcall, hnot, true_and, true_or, or_false]
  · -- the new call has put its item if it is told so
    simp only [hcall, false_and, false_or, List.mem_singleton]
    constructor
    · intro hmem
      split at hmem
      next hput =>
        obtain ⟨rfl, rfl⟩ := hput
        obtain rfl := List.mem_singleton.mp hmem
        exact ⟨rfl, rfl, report_post_new hid⟩
      · cases hmem
    · rintro ⟨rfl, rfl, hreport⟩
      rw [report_post_new hid] at hreport
      cases isPut with
      | true =>
        rw [if_pos ⟨rfl, rfl⟩]
        exact List.mem_singleton.mpr rfl
      | false => cases hasTicket <;> cases hreport

/-- After a publish, a channel has counted again those that are told of a dropped item. -/
theorem Sound.dropped_post (hs : h.Sound) (hid : id < h.bus.channels.length) (other : ChannelId) :
    ((h.post id item hasTicket isPut).bus.channel other).dropped =
      (h.post id item hasTicket isPut).calls.countP fun call => call.channel = other ∧
        (h.post id item hasTicket isPut).report call = .dropped := by
  -- the calls before count as they did, and the new one counts if its item is dropped
  have hold : h.calls.countP (fun call => call.channel = other ∧
      (h.post id item hasTicket isPut).report call = .dropped) =
      (h.bus.channel other).dropped := by
    rw [hs.dropped other]
    refine List.countP_congr fun call hcall => ?_
    rw [hs.report_post_old hid hcall]
  rw [channel_post hid, post_calls, List.countP_append, hold, List.countP_singleton]
  have hchannel : (h.newCall id item hasTicket isPut).channel = id := rfl
  rw [hchannel, report_post_new hid]
  by_cases hother : other = id
  · rw [if_pos hother, posted_dropped, hother]
    cases isPut <;> cases hasTicket <;> simp
  · rw [if_neg hother]
    simp [Ne.symm hother]

/-- A publish keeps the accounts in order, if it puts its item only where there is room. -/
theorem Sound.post (hs : h.Sound) (hid : id < h.bus.channels.length)
    (hroom : isPut = true → (h.bus.channel id).isFull = false) :
    (h.post id item hasTicket isPut).Sound where
  named := hs.named.congr rfl (h.bus.length_channels_setChannel id _)
  numbers := by
    rw [post_calls, List.map_append, hs.numbers, List.length_append, List.length_singleton,
      List.range_succ]
    rfl
  tickets := by
    rw [post_calls, List.filterMap_append, hs.tickets]
    show _ = List.range (h.bus.delivered ++ _).length
    cases hasTicket with
    | false =>
      show _ ++ [] = List.range (h.bus.delivered ++ []).length
      rw [List.append_nil, List.append_nil]
    | true =>
      rw [List.length_append, if_pos rfl, List.length_singleton, List.range_succ]
      rfl
  holders other p hp := by
    rcases (mem_pending_post hid).mp hp with hold | ⟨rfl, -, rfl, rfl⟩
    · obtain ⟨call, hcall, hholds⟩ := hs.holders other p hold
      exact ⟨call, List.mem_append_left _ hcall, hholds⟩
    · exact ⟨_, List.mem_append_right _ (List.mem_singleton.mpr rfl), rfl, rfl, rfl⟩
  alone other := by
    rw [channel_post hid]
    by_cases hother : other = id
    · rw [if_pos hother, (h.posted_pending.map _).nodup_iff]
      cases hasTicket && !isPut with
      | false => exact hs.alone id
      | true =>
        -- all who wait hold tickets that were given out before
        exact List.nodup_cons.mpr ⟨fun hmem => Nat.lt_irrefl _ (hs.pending_lt hmem), hs.alone id⟩
    · rw [if_neg hother]
      exact hs.alone other
  unsent other p hp := by
    rcases (mem_pending_post hid).mp hp with hold | ⟨rfl, rfl, -, rfl⟩
    · rw [isDelivered_post_old (hs.pending_lt (List.mem_map_of_mem hold))]
      exact hs.unsent other p hold
    · exact isDelivered_post_new
  flow other := by
    show h.taken other ++ _ = List.map _ (h.puts other ++ _)
    rw [channel_post hid, List.map_append, ← hs.flow]
    by_cases hother : other = id
    · rw [if_pos hother, posted_queue, hother]
      cases isPut <;> simp [newCall]
    · rw [if_neg hother]
      simp [hother]
  once other := by
    show (h.puts other ++ _).Nodup
    split
    · refine (hs.once other).append (List.nodup_singleton _) fun call hput hnew => ?_
      rw [List.mem_singleton.mp hnew] at hput
      exact hs.newCall_not_mem _ _ _ _ ((hs.settled _ _).mp hput).1
    · rw [List.append_nil]
      exact hs.once other
  settled := hs.settled_post hid
  dropped := hs.dropped_post hid
  bounded other := by
    rw [channel_post hid]
    by_cases hother : other = id
    · rw [if_pos hother]
      exact posted_bounded (hs.bounded id) hroom
    · rw [if_neg hother]
      exact hs.bounded other

theorem Sound.evolves_post (hs : h.Sound) (hid : id < h.bus.channels.length) :
    h.Evolves (h.post id item hasTicket isPut) where
  made := Nat.le_of_eq (h.bus.length_channels_setChannel id _).symm
  capacity other _ := by
    rw [channel_post hid]
    by_cases hother : other = id
    · rw [if_pos hother, posted_capacity, hother]
    · rw [if_neg hother]
  calls := List.prefix_append _ _
  puts _ := List.prefix_append _ _
  taken _ := List.prefix_rfl
  put call hcall hreport := by rwa [hs.report_post_old hid hcall]
  dropped call hcall hreport := by rwa [hs.report_post_old hid hcall]

end Post

end SignedEvents.History
