import SignedEvents.Proofs.Bus.Moves

/-! # Histories of a bus

  A run of the bus together with what its users have seen: which publishes there were, which items
  they put into which channel and in which order, and which items were taken.

  - **Call**, **Receipt** — a publish, and how it learns what has become of its item.
  - **History** — the bus and what has been seen so far.
  - **History.step**, **History.run** — the moves of the bus, with what is seen of them.
  - **History.step_bus**, **History.run_bus** — the bus itself does not notice.
-/

namespace SignedEvents

variable {α : Type}

/-! ## Section 1: What is seen -/

/-- How a publish learns what has become of its item. -/
inductive Receipt where
  /-- It is told at once. -/
  | answer (isPut : Bool)
  /-- It has started and holds a ticket. -/
  | ticket (number : Nat)
  deriving DecidableEq

/-- The ticket of a receipt. -/
def Receipt.ticket? : Receipt → Option Nat
  | .answer _ => none
  | .ticket t => some t

/-- A publish. -/
structure Call (α : Type) where
  /-- Its number, in the order of the publishes. -/
  number  : Nat
  /-- The channel that its name stood for. -/
  channel : ChannelId
  item    : α
  receipt : Receipt

/-- The bus and what has been seen so far. -/
structure History (α : Type) where
  bus   : Bus α
  /-- All publishes, first one first. -/
  calls : List (Call α)
  /-- The publishes that have put their items into a channel, in the order of the puts. -/
  puts  : ChannelId → List (Call α)
  /-- The items that have been taken from a channel, in the order of the gets. -/
  taken : ChannelId → List α

namespace History

/-- Nothing has been seen of the bus. -/
def ofCapacity (defaultCapacity : Int) : History α where
  bus := .ofCapacity defaultCapacity
  calls := []
  puts := fun _ => []
  taken := fun _ => []

/-- What has become of the item of a publish. -/
def report (h : History α) (call : Call α) : Delivery :=
  match call.receipt with
  | .answer isPut => if isPut then .put else .dropped
  | .ticket t => h.bus.report t

/-- The publish that holds a ticket. -/
def holder? (h : History α) (ticket : Nat) : Option (Call α) :=
  h.calls.find? (·.receipt = .ticket ticket)

/-! ## Section 2: Moves -/

/-- Channels are made, and nothing else is seen. -/
def register (h : History α) (name : Text) (capacity : Option Int) : History α :=
  { h with bus := (h.bus.register name capacity).1 }

/-- Somebody asks for a channel. -/
def subscribe (h : History α) (name : Text) : History α :=
  { h with bus := (h.bus.subscribe name).1 }

/-- The publishes whose publishers enter a channel when they have their turns. -/
def entering (h : History α) (id : ChannelId) : List (Call α) :=
  (h.bus.channel id).turn.2.filterMap h.holder?

/-- Every woken publisher has its turn. -/
def turn (h : History α) : History α :=
  { h with bus := h.bus.turn, puts := fun id => h.puts id ++ h.entering id }

/-- The time of a started publish is up. -/
def expire (h : History α) (ticket : Nat) : History α := { h with bus := h.bus.expire ticket }

/-- Somebody takes the first item of a channel. -/
def get (h : History α) (id : ChannelId) : History α :=
  { h with
    bus := (h.bus.get id).1
    taken := fun other =>
      h.taken other ++ if other = id then (h.bus.get id).2.toList else [] }

/-- The call of a publish on a channel, with a ticket or an answer. -/
def newCall (h : History α) (id : ChannelId) (item : α) (hasTicket isPut : Bool) : Call α where
  number := h.calls.length
  channel := id
  item := item
  receipt := if hasTicket then .ticket h.bus.delivered.length else .answer isPut

/-- The channel after a publish that puts its item or does not.  If it does not, it waits with its
    ticket, or the item is dropped. -/
def posted (h : History α) (id : ChannelId) (item : α) (hasTicket isPut : Bool) : Channel α :=
  let c := h.bus.channel id
  if isPut then c.put item
  else if hasTicket then c.wait ⟨h.bus.delivered.length, item⟩
  else c.drop

/-- A publish on a channel, seen by what becomes of its item. -/
def post (h : History α) (id : ChannelId) (item : α) (hasTicket isPut : Bool) : History α where
  bus :=
    { h.bus.setChannel id (h.posted id item hasTicket isPut) with
      delivered := h.bus.delivered ++ if hasTicket then [isPut] else [] }
  calls := h.calls ++ [h.newCall id item hasTicket isPut]
  puts := fun other =>
    h.puts other ++ if isPut ∧ other = id then [h.newCall id item hasTicket isPut] else []
  taken := h.taken

/-- A publish that gets an answer: its item is put if there is room. -/
def offer (h : History α) (id : ChannelId) (item : α) : History α :=
  h.post id item false (!(h.bus.channel id).isFull)

/-- A publish that gets a ticket: its item is put if there is room. -/
def enter (h : History α) (id : ChannelId) (item : α) : History α :=
  h.post id item true (!(h.bus.channel id).isFull)

/-- A publish under a name. -/
def publish (h : History α) (name : Text) (item : α) (mode : Mode) : History α :=
  let id := (h.bus.subscribe name).2
  let h := h.subscribe name
  match mode with
  | .immediate => h.offer id item
  | .untilRoom =>
    if (h.bus.channel id).isFull then (h.post id item true false).turn else h.offer id item
  | .within seconds =>
    let h := h.turn
    if seconds.isAtMost 0 then h.post id item false false
    else if seconds = .infinite false ∧ (h.bus.channel id).isFull then h.post id item true false
    else h.offer id item

/-- A publish that starts under a name. -/
def start (h : History α) (name : Text) (item : α) : History α :=
  let id := (h.bus.subscribe name).2
  (h.subscribe name).turn.enter id item

/-- The history after a move. -/
def step (h : History α) : Bus.Action α → History α
  | .register name capacity => h.register name capacity
  | .subscribe name => h.subscribe name
  | .publish name item mode => h.publish name item mode
  | .start name item => h.start name item
  | .expire ticket => h.expire ticket
  | .get id => h.get id
  | .turn => h.turn

/-- The history after some moves. -/
def run (h : History α) (actions : List (Bus.Action α)) : History α := actions.foldl step h

/-! ## Section 3: The bus of a history -/

/-- An answer leaves the tickets as they are. -/
theorem post_bus_of_answer (h : History α) (id : ChannelId) (item : α) (isPut : Bool) :
    (h.post id item false isPut).bus = h.bus.setChannel id (h.posted id item false isPut) := by
  show { h.bus.setChannel id _ with delivered := h.bus.delivered ++ [] } = _
  rw [List.append_nil]
  rfl

theorem offer_bus (h : History α) (id : ChannelId) (item : α) :
    (h.offer id item).bus = (h.bus.offer id item).1 := by
  rw [offer, post_bus_of_answer]
  unfold posted Bus.offer
  dsimp only
  cases (h.bus.channel id).isFull <;> rfl

theorem enter_bus (h : History α) (id : ChannelId) (item : α) :
    (h.enter id item).bus =
      let (c, tickets) := (h.bus.channel id).enter ⟨h.bus.delivered.length, item⟩
      { h.bus.setChannel id c with delivered := h.bus.delivered ++ [!tickets.isEmpty] } := by
  unfold enter post posted Channel.enter
  cases (h.bus.channel id).isFull <;> rfl

theorem publish_bus (h : History α) (name : Text) (item : α) (mode : Mode) :
    (h.publish name item mode).bus = (h.bus.publish name item mode).1 := by
  unfold publish Bus.publish Bus.deliver
  cases mode with
  | immediate => exact offer_bus _ _ _
  | untilRoom =>
    dsimp only [subscribe]
    by_cases hfull : ((h.bus.subscribe name).1.channel (h.bus.subscribe name).2).isFull = true
    · rw [if_pos hfull, if_pos hfull]
      rfl
    · rw [if_neg hfull, if_neg hfull]
      exact offer_bus _ _ _
  | within seconds =>
    dsimp only [subscribe, turn]
    by_cases hnone : seconds.isAtMost 0 = true
    · rw [if_pos hnone, if_pos hnone]
      exact post_bus_of_answer _ _ _ _
    · rw [if_neg hnone, if_neg hnone]
      split
      · rfl
      · exact offer_bus _ _ _

/-- What is seen does not change what the bus does. -/
theorem step_bus (h : History α) (a : Bus.Action α) : (h.step a).bus = h.bus.step a := by
  cases a with
  | publish name item mode => exact h.publish_bus name item mode
  | start name item => exact enter_bus _ _ _
  | register | subscribe | expire | get | turn => rfl

theorem run_bus (h : History α) (actions : List (Bus.Action α)) :
    (h.run actions).bus = h.bus.run actions := by
  induction actions generalizing h with
  | nil => rfl
  | cons a rest ih =>
    show ((h.step a).run rest).bus = (h.bus.step a).run rest
    rw [ih, step_bus]

theorem post_calls (h : History α) (id : ChannelId) (item : α) (hasTicket isPut : Bool) :
    (h.post id item hasTicket isPut).calls = h.calls ++ [h.newCall id item hasTicket isPut] := rfl

end History

end SignedEvents
