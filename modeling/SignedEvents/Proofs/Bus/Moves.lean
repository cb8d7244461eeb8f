import Mathlib.Data.List.GetD
import Mathlib.Data.List.Nodup
import Mathlib.Data.List.Perm.Basic
import SignedEvents.Bus.Basic

/-! # What the moves do to a channel

  - **Channel.pending** — the publishers that wait, in line or woken.
  - **Channel.IsBounded** — the queue does not exceed the capacity.
  - **Channel.Admits** — what becomes of publishers that have their turns.
  - **Channel.Yields** — what is left when items have been taken.
  - **Channel.offer**, **Channel.rest**, **Channel.emptied** — the channel after an offer, and when
    one item or all have been taken.
  - **Channel.turn_admits**, **Channel.giveUp_of_mem** — turns, and publishers that leave.
  - **Bus.Changes** — a move that changes one channel.
  - **Bus.channel_turn**, **Bus.isDelivered_turn**, **Bus.channel_get**, **Bus.offer_spec**,
    **Bus.drain_spec** — each channel after a move of the bus.
  - **Bus.IsNamed**, **Bus.IsApart** — names stand for channels that there are, and for different
    ones.
-/

namespace SignedEvents

open scoped List

variable {α : Type}

/-! ## Section 1: Channels -/

namespace Channel

/-- The publishers that wait, in line or woken. -/
def pending (c : Channel α) : List (Publisher α) := c.waiting ++ c.woken

/-- The queue of a bounded channel does not exceed its capacity. -/
def IsBounded (c : Channel α) : Prop := 0 < c.capacity → (c.depth : Int) ≤ c.capacity

theorem pending_wait (c : Channel α) (p : Publisher α) :
    (c.wait p).pending.Perm (p :: c.pending) := by
  show (c.waiting ++ [p] ++ c.woken).Perm _
  rw [List.append_assoc]
  exact List.perm_middle

theorem pending_wake (c : Channel α) : c.wake.pending.Perm c.pending := by
  unfold wake
  split
  · rfl
  next p rest hwaiting =>
    -- the first in line goes behind those that were woken before
    show (rest ++ (c.woken ++ [p])).Perm (c.waiting ++ c.woken)
    rw [hwaiting, ← List.append_assoc]
    exact List.perm_append_singleton p _

theorem isBounded_ofCapacity (capacity : Int) : (ofCapacity capacity : Channel α).IsBounded :=
  fun h => Int.le_of_lt h

/-- There is room for an item unless the channel is full. -/
theorem IsBounded.put {c : Channel α} (hfull : c.isFull = false) (item : α) :
    (c.put item).IsBounded := by
  intro hcapacity
  have hcapacity : 0 < c.capacity := hcapacity
  show ((c.queue ++ [item]).length : Int) ≤ c.capacity
  have hroom : ¬ c.capacity ≤ c.queue.length := by
    intro hle
    have hisFull : c.isFull = true :=
      Bool.and_eq_true_iff.mpr ⟨decide_eq_true hcapacity, decide_eq_true hle⟩
    rw [hfull] at hisFull
    cases hisFull
  rw [List.length_append, List.length_singleton]
  omega

/-- What becomes of publishers that have their turns: some put their items, in order, and the
    others wait. -/
structure Admits (c : Channel α) (comers : List (Publisher α)) (c' : Channel α)
    (entered : List (Publisher α)) : Prop where
  subset   : entered ⊆ comers
  queue    : c'.queue = c.queue ++ entered.map (·.item)
  pending  : (c'.pending ++ entered).Perm (c.pending ++ comers)
  dropped  : c'.dropped = c.dropped
  capacity : c'.capacity = c.capacity
  bounded  : c.IsBounded → c'.IsBounded

theorem enter_admits (c : Channel α) (p : Publisher α) :
    ∃ entered, (c.enter p).2 = entered.map (·.ticket) ∧ c.Admits [p] (c.enter p).1 entered := by
  unfold enter
  by_cases hfull : c.isFull = true
  · rw [if_pos hfull]
    refine ⟨[], rfl, ⟨List.nil_subset _, (List.append_nil _).symm, ?_, rfl, rfl, id⟩⟩
    rw [List.append_nil]
    exact (c.pending_wait p).trans (List.perm_append_singleton p _).symm
  · rw [if_neg hfull]
    have hroom : c.isFull = false := Bool.eq_false_iff.mpr hfull
    exact ⟨[p], rfl, ⟨List.Subset.refl _, rfl, .refl _, rfl, rfl, fun _ => .put hroom _⟩⟩

theorem enterAll_admits (c : Channel α) (comers : List (Publisher α)) :
    ∃ entered, (c.enterAll comers).2 = entered.map (·.ticket) ∧
      c.Admits comers (c.enterAll comers).1 entered := by
  induction comers generalizing c with
  | nil => exact ⟨[], rfl, ⟨List.Subset.refl _, (List.append_nil _).symm, .refl _, rfl, rfl, id⟩⟩
  | cons p rest ih =>
    obtain ⟨first, hfirst, h⟩ := c.enter_admits p
    obtain ⟨others, hothers, h'⟩ := ih (c.enter p).1
    refine ⟨first ++ others, ?_, ?_⟩
    · show (c.enter p).2 ++ ((c.enter p).1.enterAll rest).2 = _
      rw [hfirst, hothers, List.map_append]
    refine ⟨?_, ?_, ?_, h'.dropped.trans h.dropped, h'.capacity.trans h.capacity,
      h'.bounded ∘ h.bounded⟩
    · refine List.append_subset.mpr ⟨fun q hq => ?_, fun q hq => ?_⟩
      · rw [List.mem_singleton.mp (h.subset hq)]
        exact List.mem_cons_self
      · exact List.mem_cons_of_mem p (h'.subset hq)
    · rw [List.map_append, ← List.append_assoc, ← h.queue]
      exact h'.queue
    · -- all publishers are kept: those left to come wait for their turns behind the first
      calc ((c.enter p).1.enterAll rest).1.pending ++ (first ++ others)
          ~ ((c.enter p).1.enterAll rest).1.pending ++ (others ++ first) :=
            List.perm_append_comm.append_left _
        _ = ((c.enter p).1.enterAll rest).1.pending ++ others ++ first :=
            (List.append_assoc ..).symm
        _ ~ (c.enter p).1.pending ++ rest ++ first := h'.pending.append_right _
        _ = (c.enter p).1.pending ++ (rest ++ first) := List.append_assoc ..
        _ ~ (c.enter p).1.pending ++ (first ++ rest) := List.perm_append_comm.append_left _
        _ = (c.enter p).1.pending ++ first ++ rest := (List.append_assoc ..).symm
        _ ~ c.pending ++ [p] ++ rest := h.pending.append_right _
        _ = c.pending ++ p :: rest := List.append_assoc ..

/-- In a turn the channel admits those that have been woken. -/
theorem turn_admits (c : Channel α) :
    ∃ entered, c.turn.2 = entered.map (·.ticket) ∧
      { c with woken := [] }.Admits c.woken c.turn.1 entered :=
  enterAll_admits _ _

/-- After a turn the woken publishers have put their items or are back in line. -/
theorem Admits.pending_turn {c c' : Channel α} {entered : List (Publisher α)}
    (h : { c with woken := [] }.Admits c.woken c' entered) :
    (c'.pending ++ entered).Perm c.pending := by
  refine h.pending.trans ?_
  show (c.waiting ++ [] ++ c.woken).Perm _
  rw [List.append_nil]
  rfl

/-- What is left of a channel when some items have been taken from its head. -/
structure Yields (c : Channel α) (items : List α) (c' : Channel α) : Prop where
  queue    : items ++ c'.queue = c.queue
  pending  : c'.pending.Perm c.pending
  dropped  : c'.dropped = c.dropped
  capacity : c'.capacity = c.capacity

namespace Yields

variable {c c' c'' : Channel α} {items others : List α}

theorem refl (c : Channel α) : c.Yields [] c := ⟨rfl, .refl _, rfl, rfl⟩

theorem trans (h : c.Yields items c') (h' : c'.Yields others c'') :
    c.Yields (items ++ others) c'' where
  queue := by rw [List.append_assoc, h'.queue, h.queue]
  pending := h'.pending.trans h.pending
  dropped := h'.dropped.trans h.dropped
  capacity := h'.capacity.trans h.capacity

/-- The queue gets no longer. -/
theorem bounded (h : c.Yields items c') (hbounded : c.IsBounded) : c'.IsBounded := by
  intro hcapacity
  rw [h.capacity] at hcapacity ⊢
  have hle := hbounded hcapacity
  have hdepth : c.depth = items.length + c'.depth := by
    rw [depth, depth, ← h.queue, List.length_append]
  omega

end Yields

/-- The first item is taken, and whoever is woken still waits. -/
theorem yields_of_queue_eq_cons {c : Channel α} {item : α} {rest : List α}
    (hqueue : c.queue = item :: rest) : c.Yields [item] { c with queue := rest }.wake where
  queue := by rw [queue_wake, hqueue]; rfl
  pending := pending_wake _
  dropped := dropped_wake _
  capacity := capacity_wake _

/-- The channel after an item was offered to it. -/
def offer (c : Channel α) (item : α) : Channel α := if c.isFull then c.drop else c.put item

theorem offer_cases (c : Channel α) (item : α) :
    c.offer item = c.put item ∨ c.offer item = c.drop := by
  unfold offer
  split
  · exact .inr rfl
  · exact .inl rfl

/-- The channel without its first item, if there is one. -/
def rest (c : Channel α) : Channel α := (c.get?.map (·.2)).getD c

/-- The channel without its items. -/
def emptied (c : Channel α) : Channel α := c.queue.foldl (fun c _ => c.rest) c

/-- A channel without items stays as it is.  Otherwise the first item is taken, and the first
    publisher in line is woken. -/
theorem rest_cases (c : Channel α) :
    c.queue = [] ∧ c.rest = c ∨
      ∃ item items, c.queue = item :: items ∧ c.rest = { c with queue := items }.wake := by
  unfold rest get?
  cases hqueue : c.queue with
  | nil => exact .inl ⟨rfl, rfl⟩
  | cons item items => exact .inr ⟨item, items, rfl, rfl⟩

theorem yields_rest (c : Channel α) : c.Yields c.queue.head?.toList c.rest := by
  rcases c.rest_cases with ⟨hqueue, heq⟩ | ⟨item, items, hqueue, heq⟩
  · rw [heq, hqueue]
    exact .refl c
  · rw [heq, hqueue]
    exact yields_of_queue_eq_cons hqueue

theorem any_ticket_iff (ps : List (Publisher α)) (ticket : Nat) :
    ps.any (·.ticket = ticket) = true ↔ ticket ∈ ps.map (·.ticket) := by
  simp only [List.any_eq_true, decide_eq_true_eq, List.mem_map]

theorem filter_ticket_of_not_mem {ps : List (Publisher α)} {ticket : Nat}
    (h : ticket ∉ ps.map (·.ticket)) : ps.filter (·.ticket ≠ ticket) = ps := by
  refine List.filter_eq_self.mpr fun p hp => decide_eq_true fun heq => ?_
  exact h (List.mem_map.mpr ⟨p, hp, heq⟩)

/-- Giving up leaves the queue as it is. -/
theorem giveUp_frame (c : Channel α) (ticket : Nat) :
    (c.giveUp ticket).queue = c.queue ∧ (c.giveUp ticket).capacity = c.capacity := by
  unfold giveUp
  dsimp only
  repeat' split
  · exact ⟨rfl, rfl⟩
  · exact ⟨rfl, rfl⟩
  · exact ⟨queue_wake _, capacity_wake _⟩
  · exact ⟨rfl, rfl⟩

/-- A publisher that gives up no longer waits, and its item is dropped. -/
theorem giveUp_of_mem {c : Channel α} {ticket : Nat}
    (halone : (c.pending.map (·.ticket)).Nodup) (hmem : ticket ∈ c.pending.map (·.ticket)) :
    (c.giveUp ticket).pending.Perm (c.pending.filter (·.ticket ≠ ticket)) ∧
      (c.giveUp ticket).dropped = c.dropped + 1 := by
  have hfilter : c.pending.filter (·.ticket ≠ ticket) =
      c.waiting.filter (·.ticket ≠ ticket) ++ c.woken.filter (·.ticket ≠ ticket) :=
    List.filter_append ..
  rw [hfilter]
  rw [pending, List.map_append] at halone hmem
  unfold giveUp
  by_cases hwaiting : ticket ∈ c.waiting.map (·.ticket)
  · -- nobody else holds the ticket
    have hwoken := List.disjoint_of_nodup_append halone hwaiting
    rw [if_pos ((any_ticket_iff ..).mpr hwaiting), filter_ticket_of_not_mem hwoken]
    exact ⟨.refl _, rfl⟩
  · have hwoken : ticket ∈ c.woken.map (·.ticket) := (List.mem_append.mp hmem).resolve_left hwaiting
    rw [if_neg (hwaiting ∘ (any_ticket_iff ..).mp), if_pos ((any_ticket_iff ..).mpr hwoken),
      filter_ticket_of_not_mem hwaiting]
    dsimp only
    split
    · exact ⟨.refl _, rfl⟩
    · exact ⟨pending_wake _, dropped_wake _⟩

theorem giveUp_of_not_mem {c : Channel α} {ticket : Nat}
    (hmem : ticket ∉ c.pending.map (·.ticket)) : c.giveUp ticket = c := by
  rw [pending, List.map_append, List.mem_append, not_or] at hmem
  have hwaiting := hmem.1 ∘ (any_ticket_iff c.waiting ticket).mp
  have hwoken := hmem.2 ∘ (any_ticket_iff c.woken ticket).mp
  unfold giveUp
  rw [if_neg hwaiting]
  rw [if_neg hwoken]

end Channel

/-! ## Section 2: Channels of a bus -/

namespace Bus

theorem channel_setChannel (b : Bus α) {id : ChannelId} (h : id < b.channels.length)
    (c : Channel α) (other : ChannelId) :
    (b.setChannel id c).channel other = if other = id then c else b.channel other := by
  show (b.channels.set id c).getD other _ = _
  rw [List.getD_eq_getElem?_getD, List.getElem?_set]
  by_cases heq : id = other
  · rw [if_pos heq, if_pos heq.symm, if_pos h]
    rfl
  · rw [if_neg heq, if_neg (Ne.symm heq), ← List.getD_eq_getElem?_getD]
    rfl

/-- A change of every channel that leaves empty ones as they are. -/
theorem getD_map_channels (b : Bus α) {f : Channel α → Channel α}
    (h : f (.ofCapacity b.defaultCapacity) = .ofCapacity b.defaultCapacity) (id : ChannelId) :
    (b.channels.map f).getD id (.ofCapacity b.defaultCapacity) = f (b.channel id) := by
  have hmap := List.getD_map b.channels (.ofCapacity b.defaultCapacity) (n := id) f
  rwa [h] at hmap

theorem channel_turn (b : Bus α) (id : ChannelId) :
    b.turn.channel id = (b.channel id).turn.1 := by
  show ((b.channels.map Channel.turn).map (·.1)).getD id (.ofCapacity b.defaultCapacity) = _
  rw [List.map_map]
  exact b.getD_map_channels rfl id

theorem channel_expire (b : Bus α) (ticket : Nat) (id : ChannelId) :
    (b.expire ticket).channel id = (b.channel id).giveUp ticket :=
  b.getD_map_channels rfl id

/-- A channel of the bus, or one that there is not and that counts as empty. -/
theorem mem_channels_or (b : Bus α) (id : ChannelId) :
    b.channel id ∈ b.channels ∨ b.channel id = .ofCapacity b.defaultCapacity := by
  by_cases h : id < b.channels.length
  · left
    rw [channel, List.getD_eq_getElem _ _ h]
    exact List.getElem_mem h
  · right
    exact List.getD_eq_default _ _ (Nat.le_of_not_lt h)

theorem exists_channel_eq {b : Bus α} {c : Channel α} (h : c ∈ b.channels) :
    ∃ id, b.channel id = c := by
  obtain ⟨id, hid, rfl⟩ := List.getElem_of_mem h
  exact ⟨id, List.getD_eq_getElem _ _ hid⟩

theorem isWaiting_iff (b : Bus α) (ticket : Nat) :
    b.isWaiting ticket = true ↔ ∃ id, ticket ∈ (b.channel id).pending.map (·.ticket) := by
  rw [isWaiting, List.any_eq_true]
  constructor
  · rintro ⟨c, hc, h⟩
    obtain ⟨id, rfl⟩ := exists_channel_eq hc
    exact ⟨id, (Channel.any_ticket_iff _ _).mp h⟩
  · rintro ⟨id, h⟩
    rcases b.mem_channels_or id with hmem | hempty
    · exact ⟨_, hmem, (Channel.any_ticket_iff _ _).mpr h⟩
    · rw [hempty] at h
      cases h

theorem length_delivered_turn (b : Bus α) : b.turn.delivered.length = b.delivered.length := by
  show (b.delivered.zipIdx.map _).length = _
  rw [List.length_map, List.length_zipIdx]

/-- After a turn those publishes are delivered that were before, or whose publishers entered. -/
theorem isDelivered_turn (b : Bus α) {ticket : Nat} (h : ticket < b.delivered.length) :
    b.turn.isDelivered ticket = true ↔
      b.isDelivered ticket = true ∨ ∃ id, ticket ∈ (b.channel id).turn.2 := by
  have htickets : ticket ∈ (b.channels.map Channel.turn).flatMap (·.2) ↔
      ∃ id, ticket ∈ (b.channel id).turn.2 := by
    simp only [List.mem_flatMap, List.mem_map, exists_exists_and_eq_and]
    constructor
    · rintro ⟨c, hc, hticket⟩
      obtain ⟨id, rfl⟩ := exists_channel_eq hc
      exact ⟨id, hticket⟩
    · rintro ⟨id, hticket⟩
      rcases b.mem_channels_or id with hmem | hempty
      · exact ⟨_, hmem, hticket⟩
      · rw [hempty] at hticket
        cases hticket
  have hturn : b.turn.isDelivered ticket =
      (b.isDelivered ticket || ((b.channels.map Channel.turn).flatMap (·.2)).contains ticket) := by
    show (b.delivered.zipIdx.map _).getD ticket false = _
    rw [List.getD_eq_getElem _ _ (by rwa [List.length_map, List.length_zipIdx]), List.getElem_map,
      List.getElem_zipIdx, Nat.zero_add, isDelivered, List.getD_eq_getElem _ _ h]
  rw [hturn, Bool.or_eq_true, List.contains_iff_mem, htickets]

/-- Only an empty channel can be missing. -/
theorem lt_of_queue_eq_cons (b : Bus α) {id : ChannelId} {item : α} {rest : List α}
    (hqueue : (b.channel id).queue = item :: rest) : id < b.channels.length := by
  by_contra hge
  have hempty : b.channel id = _ := List.getD_eq_default _ _ (Nat.le_of_not_lt hge)
  rw [hempty] at hqueue
  cases hqueue

theorem length_channels_setChannel (b : Bus α) (id : ChannelId) (c : Channel α) :
    (b.setChannel id c).channels.length = b.channels.length := List.length_set

/-- One channel changes by a function, and nothing else does. -/
structure Changes (b : Bus α) (id : ChannelId) (f : Channel α → Channel α) (b' : Bus α) :
    Prop where
  names           : b'.names = b.names
  length          : b'.channels.length = b.channels.length
  defaultCapacity : b'.defaultCapacity = b.defaultCapacity
  channel         : ∀ other, b'.channel other =
    if other = id then f (b.channel id) else b.channel other

section

variable {b b' b'' : Bus α} {id : ChannelId} {f g : Channel α → Channel α}

theorem Changes.refl (b : Bus α) (id : ChannelId) : b.Changes id (fun c => c) b where
  names := rfl
  length := rfl
  defaultCapacity := rfl
  channel other := by
    split
    · next hother => rw [hother]
    · rfl

theorem Changes.trans (h : b.Changes id f b') (h' : b'.Changes id g b'') :
    b.Changes id (fun c => g (f c)) b'' where
  names := h'.names.trans h.names
  length := h'.length.trans h.length
  defaultCapacity := h'.defaultCapacity.trans h.defaultCapacity
  channel other := by
    rw [h'.channel, h.channel, h.channel, if_pos rfl]
    by_cases hother : other = id
    · rw [if_pos hother, if_pos hother]
    · rw [if_neg hother, if_neg hother, if_neg hother]

/-- If the channel yields some items, then the others yield none. -/
theorem Changes.yields (h : b.Changes id f b') {items : List α}
    (hyields : (b.channel id).Yields items (f (b.channel id))) (other : ChannelId) :
    (b.channel other).Yields (if other = id then items else []) (b'.channel other) := by
  rw [h.channel]
  by_cases hother : other = id
  · rw [if_pos hother, if_pos hother, hother]
    exact hyields
  · rw [if_neg hother, if_neg hother]
    exact .refl _

theorem changes_setChannel (hid : id < b.channels.length) (f : Channel α → Channel α) :
    b.Changes id f (b.setChannel id (f (b.channel id))) where
  names := rfl
  length := b.length_channels_setChannel id _
  defaultCapacity := rfl
  channel _ := b.channel_setChannel hid _ _

theorem changes_offer (hid : id < b.channels.length) (item : α) :
    b.Changes id (·.offer item) (b.offer id item).1 := by
  have hoffer : (b.offer id item).1 = b.setChannel id ((b.channel id).offer item) := by
    unfold offer Channel.offer
    dsimp only
    split <;> rfl
  rw [hoffer]
  exact changes_setChannel hid _

theorem changes_get (b : Bus α) (id : ChannelId) : b.Changes id Channel.rest (b.get id).1 := by
  cases hqueue : (b.channel id).queue with
  | nil =>
    -- nothing is taken from an empty queue
    have hget : (b.get id).1 = b := by
      unfold get Channel.get?
      rw [hqueue]
    have hrest : (b.channel id).rest = b.channel id := by
      unfold Channel.rest Channel.get?
      rw [hqueue]
      rfl
    have h := Changes.refl b id
    rw [hget]
    exact { h with channel := fun other => by rw [hrest]; exact h.channel other }
  | cons item items =>
    have hget : (b.get id).1 = b.setChannel id (b.channel id).rest := by
      unfold get Channel.rest Channel.get?
      rw [hqueue]
      rfl
    rw [hget]
    exact changes_setChannel (b.lt_of_queue_eq_cons hqueue) _

theorem changes_foldl_get (b : Bus α) (id : ChannelId) (items : List α) :
    b.Changes id (fun c => items.foldl (fun c _ => c.rest) c)
      (items.foldl (fun b _ => (b.get id).1) b) := by
  induction items generalizing b with
  | nil => exact .refl b id
  | cons item items ih => exact (changes_get b id).trans (ih (b.get id).1)

theorem changes_drain (b : Bus α) (id : ChannelId) : b.Changes id Channel.emptied (b.drain id).1 :=
  have h := b.changes_foldl_get id (b.channel id).queue
  { h with channel := h.channel }

end

theorem get_item (b : Bus α) (id : ChannelId) :
    (b.get id).2 = (b.channel id).queue.head? := by
  unfold get Channel.get?
  cases (b.channel id).queue <;> rfl

/-- Taking an item takes it from the head of one queue. -/
theorem channel_get (b : Bus α) (id other : ChannelId) :
    (b.channel other).Yields (if other = id then (b.get id).2.toList else [])
      ((b.get id).1.channel other) := by
  rw [get_item]
  exact (b.changes_get id).yields (b.channel id).yields_rest other

/-- What is reported depends on the delivered tickets and on those that wait. -/
theorem report_congr {b b' : Bus α} {ticket : Nat}
    (hdelivered : b'.isDelivered ticket = b.isDelivered ticket)
    (hwaiting : ∀ id, ticket ∈ (b'.channel id).pending.map (·.ticket) ↔
      ticket ∈ (b.channel id).pending.map (·.ticket)) :
    b'.report ticket = b.report ticket := by
  have hwaiting : b'.isWaiting ticket = b.isWaiting ticket := by
    rw [Bool.eq_iff_iff, isWaiting_iff, isWaiting_iff]
    exact exists_congr hwaiting
  rw [report, report, hdelivered, hwaiting]

theorem report_eq_put_iff (b : Bus α) (ticket : Nat) :
    b.report ticket = .put ↔ b.isDelivered ticket = true := by
  unfold report
  cases b.isDelivered ticket <;> cases b.isWaiting ticket <;> decide

theorem report_eq_dropped_iff (b : Bus α) (ticket : Nat) :
    b.report ticket = .dropped ↔
      ¬ b.isDelivered ticket = true ∧ ¬ b.isWaiting ticket = true := by
  unfold report
  cases b.isDelivered ticket <;> cases b.isWaiting ticket <;> decide

theorem report_eq_waiting_iff (b : Bus α) (ticket : Nat) :
    b.report ticket = .waiting ↔
      ¬ b.isDelivered ticket = true ∧ b.isWaiting ticket = true := by
  unfold report
  cases b.isDelivered ticket <;> cases b.isWaiting ticket <;> decide

/-! ## Section 3: Names -/

theorem find?_rename (names : List (Text × ChannelId)) (name other : Text) (id : ChannelId) :
    ((rename names name id).find? (·.1 = other)).map (·.2) =
      if other = name then some id else (names.find? (·.1 = other)).map (·.2) := by
  unfold rename
  by_cases hknown : names.any (·.1 = name) = true
  · -- a known name keeps its place, so the search stops where it did before
    rw [if_pos hknown, List.find?_map]
    have hfirst : (fun n : Text × ChannelId => decide (n.1 = other)) ∘
        (fun n => if n.1 = name then (name, id) else n) = fun n => decide (n.1 = other) := by
      funext n
      have hfst : (if n.1 = name then (name, id) else n).1 = n.1 := by
        by_cases hn : n.1 = name
        · rw [if_pos hn, hn]
        · rw [if_neg hn]
      simp only [Function.comp, hfst]
    rw [hfirst]
    cases hfind : names.find? (·.1 = other) with
    | none =>
      have hother : other ≠ name := by
        rintro rfl
        obtain ⟨n, hmem, hn⟩ := List.any_eq_true.mp hknown
        exact List.find?_eq_none.mp hfind n hmem hn
      rw [if_neg hother]
      rfl
    | some n =>
      have hn : n.1 = other := by
        have := List.find?_some hfind
        exact of_decide_eq_true this
      rw [← hn]
      by_cases hname : n.1 = name
      · simp only [Option.map_some, if_pos hname]
      · simp only [Option.map_some, if_neg hname]
  · -- a new name comes last
    rw [if_neg hknown, List.find?_append]
    by_cases hother : other = name
    · have hnone : names.find? (·.1 = other) = none := by
        rw [List.find?_eq_none, hother]
        intro n hmem hn
        exact hknown (List.any_eq_true.mpr ⟨n, hmem, hn⟩)
      rw [hnone, if_pos hother, hother]
      simp only [List.find?_singleton, decide_true, if_true, Option.none_or, Option.map_some]
    · rw [if_neg hother]
      simp only [List.find?_singleton, decide_eq_true_eq, if_neg (Ne.symm hother), Option.or_none]

/-- After a registration the name stands for the new channel. -/
theorem find?_register (b : Bus α) (name other : Text) (capacity : Option Int) :
    (b.register name capacity).1.find? other =
      if other = name then some b.channels.length else b.find? other :=
  find?_rename b.names name other b.channels.length

/-- The new channel is empty, and the others are as they were. -/
theorem channel_register (b : Bus α) (name : Text) (capacity : Option Int) (id : ChannelId) :
    (b.register name capacity).1.channel id =
      if id = b.channels.length then .ofCapacity (capacity.getD b.defaultCapacity)
      else b.channel id := by
  show (b.channels ++ [_]).getD id (.ofCapacity b.defaultCapacity) = _
  rcases Nat.lt_trichotomy id b.channels.length with hlt | heq | hgt
  · rw [List.getD_append _ _ _ _ hlt, if_neg (Nat.ne_of_lt hlt)]
    rfl
  · rw [List.getD_append_right _ _ _ _ (Nat.le_of_eq heq.symm), if_pos heq, heq, Nat.sub_self]
    rfl
  · rw [if_neg (Nat.ne_of_gt hgt), channel, List.getD_eq_default _ _ (Nat.le_of_lt hgt),
      List.getD_eq_default _ _ (by rw [List.length_append]; exact hgt)]

/-- All that a registration changes about a channel is the capacity of an empty one. -/
theorem channel_register_same (b : Bus α) (name : Text) (capacity : Option Int)
    (id : ChannelId) :
    let c := (b.register name capacity).1.channel id
    c.queue = (b.channel id).queue ∧ c.pending = (b.channel id).pending ∧
      c.dropped = (b.channel id).dropped ∧ ((b.channel id).IsBounded → c.IsBounded) := by
  intro c
  have hc : c = _ := b.channel_register name capacity id
  by_cases hid : id = b.channels.length
  · rw [if_pos hid] at hc
    have hempty : b.channel id = .ofCapacity b.defaultCapacity :=
      List.getD_eq_default _ _ (Nat.le_of_eq hid.symm)
    rw [hc, hempty]
    exact ⟨rfl, rfl, rfl, fun _ => Channel.isBounded_ofCapacity _⟩
  · rw [if_neg hid] at hc
    rw [hc]
    exact ⟨rfl, rfl, rfl, fun hbounded => hbounded⟩

/-- Every name stands for a channel that there is. -/
def IsNamed (b : Bus α) : Prop := ∀ name id, b.find? name = some id → id < b.channels.length

theorem IsNamed.register {b : Bus α} (h : b.IsNamed) (name : Text) (capacity : Option Int) :
    (b.register name capacity).1.IsNamed := by
  intro other id hid
  rw [find?_register] at hid
  show id < (b.channels ++ [_]).length
  rw [List.length_append, List.length_singleton]
  by_cases hother : other = name
  · rw [if_pos hother] at hid
    cases hid
    exact Nat.lt_succ_self _
  · rw [if_neg hother] at hid
    exact Nat.lt_succ_of_lt (h other id hid)

theorem find?_congr {b b' : Bus α} (hnames : b'.names = b.names) (name : Text) :
    b'.find? name = b.find? name := by
  rw [find?, hnames, find?]

/-- Names are kept in order by all moves that make no channels. -/
theorem IsNamed.congr {b b' : Bus α} (h : b.IsNamed) (hnames : b'.names = b.names)
    (hlength : b'.channels.length = b.channels.length) : b'.IsNamed := by
  intro name id hid
  rw [find?_congr hnames] at hid
  rw [hlength]
  exact h name id hid

theorem length_channels_turn (b : Bus α) : b.turn.channels.length = b.channels.length := by
  show ((b.channels.map Channel.turn).map _).length = _
  rw [List.length_map, List.length_map]

theorem length_channels_expire (b : Bus α) (ticket : Nat) :
    (b.expire ticket).channels.length = b.channels.length := List.length_map _

/-- Taking an item changes nothing but channels. -/
theorem get_frame (b : Bus α) (id : ChannelId) :
    (b.get id).1.names = b.names ∧ (b.get id).1.delivered = b.delivered ∧
      (b.get id).1.channels.length = b.channels.length := by
  unfold get
  cases (b.channel id).get? with
  | none => exact ⟨rfl, rfl, rfl⟩
  | some taken => exact ⟨rfl, rfl, b.length_channels_setChannel id taken.2⟩

theorem isNamed_ofCapacity (capacity : Int) : (ofCapacity capacity : Bus α).IsNamed := by
  have hempty : (⟨capacity, [], [], []⟩ : Bus α).IsNamed := fun _ _ h => nomatch h
  exact (hempty.register "events_out" none).register "notices" none

/-- Whoever subscribes gets the channel that the name then stands for. -/
theorem subscribe_cases (b : Bus α) (name : Text) :
    (∃ id, b.find? name = some id ∧ b.subscribe name = (b, id)) ∨
      b.find? name = none ∧ b.subscribe name = b.register name none := by
  unfold subscribe
  cases b.find? name with
  | some id => exact .inl ⟨id, rfl, rfl⟩
  | none => exact .inr ⟨rfl, rfl⟩

theorem IsNamed.subscribe_lt {b : Bus α} (h : b.IsNamed) (name : Text) :
    (b.subscribe name).2 < (b.subscribe name).1.channels.length := by
  rcases b.subscribe_cases name with ⟨id, hid, heq⟩ | ⟨-, heq⟩
  · rw [heq]
    exact h name id hid
  · rw [heq]
    show b.channels.length < (b.channels ++ [_]).length
    rw [List.length_append]
    exact Nat.lt_succ_self _

/-- No two names stand for one channel. -/
def IsApart (b : Bus α) : Prop :=
  ∀ name other id, b.find? name = some id → b.find? other = some id → name = other

theorem IsApart.register {b : Bus α} (h : b.IsApart) (hnamed : b.IsNamed) (name : Text)
    (capacity : Option Int) : (b.register name capacity).1.IsApart := by
  intro first second id hfirst hsecond
  rw [find?_register] at hfirst hsecond
  by_cases hname : first = name
  · rw [if_pos hname] at hfirst
    by_cases hname' : second = name
    · rw [hname, hname']
    · -- the channel is new, and no other name stands for it
      rw [if_neg hname'] at hsecond
      rw [← Option.some.inj hfirst] at hsecond
      exact absurd (hnamed second _ hsecond) (Nat.lt_irrefl _)
  · rw [if_neg hname] at hfirst
    by_cases hname' : second = name
    · rw [if_pos hname'] at hsecond
      rw [← Option.some.inj hsecond] at hfirst
      exact absurd (hnamed first _ hfirst) (Nat.lt_irrefl _)
    · rw [if_neg hname'] at hsecond
      exact h first second id hfirst hsecond

/-- A registration leaves the other names and their channels alone. -/
theorem register_known {b : Bus α} (hnamed : b.IsNamed) {name other : Text} {id : ChannelId}
    (hid : b.find? name = some id) (hother : name ≠ other) (capacity : Option Int) :
    (b.register other capacity).1.find? name = some id ∧
      (b.register other capacity).1.channel id = b.channel id := by
  have hne : id ≠ b.channels.length := Nat.ne_of_lt (hnamed name id hid)
  rw [find?_register, channel_register, if_neg hother, if_neg hne]
  exact ⟨hid, rfl⟩

/-- Subscribing leaves known names and their channels alone, and gives the channel of a known name
    to nobody else. -/
theorem subscribe_known {b : Bus α} (hnamed : b.IsNamed) (hapart : b.IsApart) {name : Text}
    {id : ChannelId} (hid : b.find? name = some id) (other : Text) :
    (b.subscribe other).1.find? name = some id ∧
      (b.subscribe other).1.channel id = b.channel id ∧
      ((b.subscribe other).2 = id ↔ other = name) := by
  rcases b.subscribe_cases other with ⟨id', hid', heq⟩ | ⟨hnone, heq⟩
  · rw [heq]
    refine ⟨hid, rfl, fun hsame => ?_, fun hsame => ?_⟩
    · exact hapart other name id (hsame ▸ hid') hid
    · rw [hsame, hid] at hid'
      exact (Option.some.inj hid').symm
  · have hother : name ≠ other := by
      rintro rfl
      rw [hid] at hnone
      cases hnone
    obtain ⟨hfind, hchannel⟩ := register_known hnamed hid hother none
    rw [heq]
    refine ⟨hfind, hchannel, fun hsame => ?_, fun hsame => absurd hsame.symm hother⟩
    exact absurd (hnamed name id hid) (hsame ▸ Nat.lt_irrefl _)

theorem IsApart.subscribe {b : Bus α} (h : b.IsApart) (hnamed : b.IsNamed) (name : Text) :
    (b.subscribe name).1.IsApart := by
  rcases b.subscribe_cases name with ⟨id, -, heq⟩ | ⟨-, heq⟩
  · rw [heq]
    exact h
  · rw [heq]
    exact h.register hnamed name none

theorem IsApart.congr {b b' : Bus α} (h : b.IsApart) (hnames : b'.names = b.names) :
    b'.IsApart := by
  intro name other id hid hid'
  rw [find?_congr hnames] at hid hid'
  exact h name other id hid hid'

theorem IsNamed.subscribe {b : Bus α} (h : b.IsNamed) (name : Text) :
    (b.subscribe name).1.IsNamed := by
  rcases b.subscribe_cases name with ⟨id, -, heq⟩ | ⟨-, heq⟩
  · rw [heq]
    exact h
  · rw [heq]
    exact h.register name none

/-- An offer changes one channel: the item is put at the end of the queue, or counted as
    dropped. -/
theorem offer_spec (b : Bus α) {id : ChannelId} (hid : id < b.channels.length) (item : α) :
    (∀ other, other ≠ id → (b.offer id item).1.channel other = b.channel other) ∧
      ((b.offer id item).1.channel id = (b.channel id).put item ∨
        (b.offer id item).1.channel id = (b.channel id).drop) ∧
      (b.offer id item).1.names = b.names ∧
      (b.offer id item).1.channels.length = b.channels.length := by
  have h := changes_offer hid item
  refine ⟨fun other hother => ?_, ?_, h.names, h.length⟩
  · rw [h.channel, if_neg hother]
  · rw [h.channel, if_pos rfl]
    exact (b.channel id).offer_cases item

theorem publish_immediate (b : Bus α) (name : Text) (item : α) :
    b.publish name item .immediate = (b.subscribe name).1.offer (b.subscribe name).2 item := rfl

end Bus

end SignedEvents
