/-! # Channels

  A channel is a queue with a capacity.  Publishers that find it full may wait in line; taking
  an item wakes the first of them, which puts its own item when its turn comes, if there still
  is room then.

  - **Publisher** — a publish that waits: its ticket and its item.
  - **Channel** — the queue, the waiting line, the publishers that have been woken, and the
    number of items dropped.
  - **put**, **drop**, **wait**, **wake**, **giveUp**, **get?** — the moves of a channel.
  - **turn** — every woken publisher has its turn.
-/

namespace SignedEvents

/-- A publish that waits for room. -/
structure Publisher (α : Type) where
  ticket : Nat
  item   : α

/-- A queue with a capacity.  A capacity of zero or less is no bound. -/
structure Channel (α : Type) where
  capacity : Int
  /-- The items, next one to take first. -/
  queue    : List α
  /-- The publishers in line, first come first. -/
  waiting  : List (Publisher α)
  /-- The publishers woken since the last turn, first woken first. -/
  woken    : List (Publisher α)
  /-- How many items have been dropped. -/
  dropped  : Nat

namespace Channel

variable {α : Type}

/-- An empty channel. -/
def ofCapacity (capacity : Int) : Channel α := ⟨capacity, [], [], [], 0⟩

/-- How many items are in the queue. -/
def depth (c : Channel α) : Nat := c.queue.length

/-- Is the channel bounded and without room? -/
def isFull (c : Channel α) : Bool := 0 < c.capacity && c.capacity ≤ c.depth

/-- Puts an item at the end of the queue. -/
def put (c : Channel α) (item : α) : Channel α := { c with queue := c.queue ++ [item] }

/-- Counts a dropped item. -/
def drop (c : Channel α) : Channel α := { c with dropped := c.dropped + 1 }

/-- Puts a publisher at the end of the line. -/
def wait (c : Channel α) (p : Publisher α) : Channel α := { c with waiting := c.waiting ++ [p] }

/-- Wakes the first publisher in line. -/
def wake (c : Channel α) : Channel α :=
  match c.waiting with
  | [] => c
  | p :: rest => { c with waiting := rest, woken := c.woken ++ [p] }

/-- A publisher leaves without having put its item.  If it has been woken, and there is room, it
    wakes the next one. -/
def giveUp (c : Channel α) (ticket : Nat) : Channel α :=
  if c.waiting.any (·.ticket = ticket) then
    { c.drop with waiting := c.waiting.filter (·.ticket ≠ ticket) }
  else if c.woken.any (·.ticket = ticket) then
    let c := { c.drop with woken := c.woken.filter (·.ticket ≠ ticket) }
    if c.isFull then c else c.wake
  else c

/-- Takes the first item and wakes the first publisher in line. -/
def get? (c : Channel α) : Option (α × Channel α) :=
  match c.queue with
  | [] => none
  | item :: rest => some (item, wake { c with queue := rest })

/-- One publisher has its turn: it puts its item, or joins the end of the line.  Gives the
    tickets of those that have put their items. -/
def enter (c : Channel α) (p : Publisher α) : Channel α × List Nat :=
  if c.isFull then (c.wait p, []) else (c.put p.item, [p.ticket])

/-- Publishers have their turns, one after the other. -/
def enterAll (c : Channel α) : List (Publisher α) → Channel α × List Nat
  | [] => (c, [])
  | p :: rest =>
    let (c, first) := c.enter p
    let (c, others) := enterAll c rest
    (c, first ++ others)

/-- Every woken publisher has its turn. -/
def turn (c : Channel α) : Channel α × List Nat := enterAll { c with woken := [] } c.woken

@[simp] theorem dropped_put (c : Channel α) (item : α) : (c.put item).dropped = c.dropped := rfl

@[simp] theorem queue_drop (c : Channel α) : c.drop.queue = c.queue := rfl

@[simp] theorem dropped_drop (c : Channel α) : c.drop.dropped = c.dropped + 1 := rfl

@[simp] theorem queue_put (c : Channel α) (item : α) :
    (c.put item).queue = c.queue ++ [item] := rfl

@[simp] theorem queue_wake (c : Channel α) : c.wake.queue = c.queue := by
  unfold wake; split <;> rfl

@[simp] theorem dropped_wake (c : Channel α) : c.wake.dropped = c.dropped := by
  unfold wake; split <;> rfl

@[simp] theorem capacity_wake (c : Channel α) : c.wake.capacity = c.capacity := by
  unfold wake; split <;> rfl

end Channel

end SignedEvents
