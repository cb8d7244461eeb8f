import SignedEvents.Proofs.Bus.Line

/-! # Publishing where there is room

  With room, and nobody else on the way to it, all ways of publishing do the same.  There is one
  exception: a publish with no time to wait gives up before it has tried.

  - **Channel.HasRoom** — the channel is not bounded, or holds fewer items than its capacity.
  - **Mode.givesUpAtOnce** — the publish has no time to wait.
  - **Channel.published** — the channel after a publish, and the answer.
  - **Bus.deliver_of_hasRoom** — a publish on a channel with room.
  - **Bus.publish_with_room** — so it is in every run, on a channel and under a name.
  - **Bus.drops_with_room** — an item that is dropped from an empty queue.
-/

namespace SignedEvents

variable {α : Type}

/-! ## Section 1: Room -/

/-- The channel is not bounded, or it holds fewer items than its capacity. -/
def Channel.HasRoom (c : Channel α) : Prop := 0 < c.capacity → (c.depth : Int) < c.capacity

instance (c : Channel α) : Decidable c.HasRoom :=
  inferInstanceAs (Decidable (0 < c.capacity → (c.depth : Int) < c.capacity))

theorem Channel.isFull_of_hasRoom {c : Channel α} (h : c.HasRoom) : c.isFull = false := by
  rw [Bool.eq_false_iff]
  intro hfull
  rcases c.isFull_iff.mp hfull with ⟨hbounded, hle⟩
  have hlt := h hbounded
  omega

/-- The publish has no time to wait, so it does not even try. -/
def Mode.givesUpAtOnce : Mode → Bool
  | within seconds => seconds.isAtMost 0
  | _ => false

/-- The channel after a publish for which there is room, and the answer: the item is at the end of
    the queue, or it is counted as dropped. -/
def Channel.published (c : Channel α) (item : α) (mode : Mode) : Channel α × Delivery :=
  if mode.givesUpAtOnce then ({ c with dropped := c.dropped + 1 }, .dropped)
  else ({ c with queue := c.queue ++ [item] }, .put)

/-! ## Section 2: A publish -/

namespace Bus

variable {b : Bus α} {id : ChannelId}

/-- A turn does not change a channel at which nobody waits. -/
theorem channel_turn_of_pending (hnobody : (b.channel id).pending = []) :
    b.turn.channel id = b.channel id := by
  have hwoken : (b.channel id).woken = [] := (List.append_eq_nil_iff.mp hnobody).2
  rw [channel_turn, Channel.turn_eq_self hwoken]

/-- An offer where there is room. -/
theorem offer_of_hasRoom (hid : id < b.channels.length) (hroom : (b.channel id).HasRoom)
    (item : α) :
    ((b.offer id item).1.channel id, (b.offer id item).2) = ((b.channel id).put item, .put) := by
  unfold offer
  simp [Channel.isFull_of_hasRoom hroom, b.channel_setChannel hid]

/-- Where there is room and nobody waits, a publish puts its item, unless it gives up at once. -/
theorem deliver_of_hasRoom (hid : id < b.channels.length) (hroom : (b.channel id).HasRoom)
    (hnobody : (b.channel id).pending = []) (item : α) (mode : Mode) :
    ((b.deliver id item mode).1.channel id, (b.deliver id item mode).2) =
      (b.channel id).published item mode := by
  cases mode with
  | immediate => exact offer_of_hasRoom hid hroom item
  | untilRoom =>
    unfold deliver
    dsimp only
    rw [if_neg (Bool.eq_false_iff.mp (Channel.isFull_of_hasRoom hroom))]
    exact offer_of_hasRoom hid hroom item
  | within seconds =>
    -- the turn that comes first leaves the channel alone
    have hsame := channel_turn_of_pending hnobody
    have hturn : id < b.turn.channels.length := by rwa [length_channels_turn]
    rw [← hsame] at hroom ⊢
    unfold deliver
    dsimp only
    by_cases hnone : seconds.isAtMost 0 = true
    · have hpublished : (b.turn.channel id).published item (.within seconds) =
          ((b.turn.channel id).drop, .dropped) := if_pos hnone
      rw [hpublished, if_pos hnone, b.turn.channel_setChannel hturn, if_pos rfl]
    · have hpublished : (b.turn.channel id).published item (.within seconds) =
          ((b.turn.channel id).put item, .put) := if_neg hnone
      have hfull := Bool.eq_false_iff.mp (Channel.isFull_of_hasRoom hroom)
      rw [hpublished, if_neg hnone, if_neg fun hforever => hfull hforever.2]
      exact offer_of_hasRoom hturn hroom item

/-! ## Section 3: Runs -/

theorem isNamed_run (defaultCapacity : Int) (actions : List (Action α)) :
    ((ofCapacity defaultCapacity).run actions : Bus α).IsNamed := by
  have hs := ((History.sound_ofCapacity (α := α) defaultCapacity).advances_run actions).sound
  have hnamed := hs.named
  rwa [History.run_bus] at hnamed

/-- In every run, on every channel that was ever made and under every name: if the channel has room
    and nobody waits at it, in line or woken, then a publish puts its item at the end of the queue
    and says so, and the channel has not dropped more than before.  It does not matter whether the
    publish waits, and how long it may; but with zero seconds or fewer it gives up at once, and its
    item is counted as dropped although there is room. -/
theorem publish_with_room (defaultCapacity : Int) (actions : List (Action α)) (item : α)
    (mode : Mode) :
    let b := (ofCapacity defaultCapacity).run actions
    (∀ id < b.channels.length, (b.channel id).HasRoom → (b.channel id).pending = [] →
      ((b.deliver id item mode).1.channel id, (b.deliver id item mode).2) =
        (b.channel id).published item mode) ∧
    ∀ name,
      let (named, id) := b.subscribe name
      (named.channel id).HasRoom → (named.channel id).pending = [] →
        ((b.publish name item mode).1.channel id, (b.publish name item mode).2) =
          (named.channel id).published item mode := by
  intro b
  constructor
  · intro id hid hroom hnobody
    exact deliver_of_hasRoom hid hroom hnobody item mode
  · intro name hroom hnobody
    -- under a name it is a publish on the channel that the name stands for
    have hid := (isNamed_run defaultCapacity actions).subscribe_lt name
    exact deliver_of_hasRoom hid hroom hnobody item mode

/-- A publish that may wait for half a second, on a bounded channel from which an item has been
    taken. -/
theorem publish_with_room_of_half :
    let b : Bus Nat := (ofCapacity 1).run [.publish "notices" 1 .immediate, .get 1]
    let half : Mode := .within (.finite false 1 (-1))
    1 < b.channels.length ∧ (b.channel 1).HasRoom ∧ (b.channel 1).pending = [] ∧
      (b.deliver 1 2 half).2 = .put ∧ ((b.deliver 1 2 half).1.channel 1).queue = [2] := by
  intro b half
  have hid : 1 < b.channels.length := by decide
  have hroom : (b.channel 1).HasRoom := by decide
  have hnobody : (b.channel 1).pending = [] := by rfl
  have hpublished : (b.channel 1).published 2 half = (⟨1, [2], [], [], 0⟩, .put) := by rfl
  have heq := (publish_with_room 1 [.publish "notices" 1 .immediate, .get 1] 2 half).1 1 hid hroom
    hnobody
  rw [hpublished] at heq
  rcases Prod.mk.inj heq with ⟨hchannel, hdelivery⟩
  exact ⟨hid, hroom, hnobody, hdelivery, congrArg Channel.queue hchannel⟩

/-- On an empty channel for one item, a publish that may wait for zero seconds drops its item. -/
theorem drops_with_room :
    let b : Bus Nat := ofCapacity 1
    let result := b.publish "notices" 7 (.within (.ofInt 0))
    (b.channel 1).HasRoom ∧ (b.channel 1).pending.length = 0 ∧
      result.2 = .dropped ∧ (result.1.channel 1).queue = [] ∧ (result.1.channel 1).dropped = 1 := by
  decide +kernel

end Bus

end SignedEvents
