import SignedEvents.Binary64.Basic
import SignedEvents.Bus.Channel
import SignedEvents.Text.Basic

/-! # The bus

  Named channels that hand items to consumers.  A name may be registered again: it then stands
  for a new channel, and whoever holds the old one keeps it.

  - **Bus** — the channels, the names, and which started publishes are delivered.
  - **Mode** — how a publish meets a full channel.
  - **register**, **subscribe**, **publish**, **start**, **expire**, **get**, **turn** — the moves.
  - **deliver** — a publish on a channel, whether or not a name still stands for it.
  - **report** — what has become of a started publish.
  - **Action**, **step**, **run** — the moves as one transition system.
-/

namespace SignedEvents

/-! ## State -/

/-- The number of a channel, in order of creation. -/
abbrev ChannelId := Nat

/-- Named channels. -/
structure Bus (α : Type) where
  /-- The capacity of a channel that is registered without one. -/
  defaultCapacity : Int
  /-- All channels ever created. -/
  channels        : List (Channel α)
  /-- What each name stands for, in order of the first registration. -/
  names           : List (Text × ChannelId)
  /-- For each started publish, whether its item has been put. -/
  delivered       : List Bool

/-- How a publish meets a full channel. -/
inductive Mode where
  /-- It drops the item at once. -/
  | immediate
  /-- It waits without a limit. -/
  | untilRoom
  /-- It waits for some seconds.  With zero seconds or fewer it gives up before it has tried. -/
  | within (seconds : Binary64)

/-- What becomes of an item. -/
inductive Delivery where
  | put
  | dropped
  /-- The publish does not come to an end as long as nobody takes an item. -/
  | waiting
  deriving DecidableEq

namespace Bus

variable {α : Type}

/-- The channel of a number. -/
def channel (b : Bus α) (id : ChannelId) : Channel α :=
  b.channels.getD id (.ofCapacity b.defaultCapacity)

/-- The number of the channel that a name stands for. -/
def find? (b : Bus α) (name : Text) : Option ChannelId :=
  (b.names.find? (·.1 = name)).map (·.2)

/-- Changes one channel. -/
def setChannel (b : Bus α) (id : ChannelId) (c : Channel α) : Bus α :=
  { b with channels := b.channels.set id c }

/-- The names after one of them stands for another channel.  A known name keeps its place. -/
def rename (names : List (Text × ChannelId)) (name : Text) (id : ChannelId) :
    List (Text × ChannelId) :=
  if names.any (·.1 = name) then names.map fun n => if n.1 = name then (name, id) else n
  else names ++ [(name, id)]

/-! ## Moves -/

/-- Gives a name a new channel. -/
def register (b : Bus α) (name : Text) (capacity : Option Int) : Bus α × ChannelId :=
  let id := b.channels.length
  let c := Channel.ofCapacity (capacity.getD b.defaultCapacity)
  ({ b with channels := b.channels ++ [c], names := rename b.names name id }, id)

/-- The channels that every bus has. -/
def standardNames : List Text := ["events_out", "notices"]

/-- A bus with its standard channels. -/
def ofCapacity (defaultCapacity : Int) : Bus α :=
  standardNames.foldl (fun b name => (b.register name none).1) ⟨defaultCapacity, [], [], []⟩

/-- The capacity of channels where nothing else is said. -/
def usualCapacity : Int := 1000

/-- The channel that a name stands for.  An unknown name is registered. -/
def subscribe (b : Bus α) (name : Text) : Bus α × ChannelId :=
  match b.find? name with
  | some id => (b, id)
  | none => b.register name none

/-- Every woken publisher of every channel has its turn. -/
def turn (b : Bus α) : Bus α :=
  let turns := b.channels.map Channel.turn
  let tickets := turns.flatMap (·.2)
  { b with
    channels := turns.map (·.1)
    delivered := b.delivered.zipIdx.map fun (isDone, i) => isDone || tickets.contains i }

/-- Puts an item, or drops it when there is no room. -/
def offer (b : Bus α) (id : ChannelId) (item : α) : Bus α × Delivery :=
  let c := b.channel id
  if c.isFull then (b.setChannel id c.drop, .dropped)
  else (b.setChannel id (c.put item), .put)

/-- Starts a publish that waits for room, and lets all publishers have their turns.  Gives its
    ticket. -/
def start (b : Bus α) (name : Text) (item : α) : Bus α × Nat :=
  let (b, id) := b.subscribe name
  let b := b.turn
  let ticket := b.delivered.length
  let (c, tickets) := (b.channel id).enter ⟨ticket, item⟩
  ({ b.setChannel id c with delivered := b.delivered ++ [!tickets.isEmpty] }, ticket)

/-- Has a started publish put its item? -/
def isDelivered (b : Bus α) (ticket : Nat) : Bool := b.delivered.getD ticket false

/-- Does a started publish wait, in line or woken? -/
def isWaiting (b : Bus α) (ticket : Nat) : Bool :=
  b.channels.any fun c => (c.waiting ++ c.woken).any (·.ticket = ticket)

/-- What has become of a started publish. -/
def report (b : Bus α) (ticket : Nat) : Delivery :=
  if b.isDelivered ticket then .put else if b.isWaiting ticket then .waiting else .dropped

/-- The time of a started publish is up.  If it waits, in line or woken, it gives up. -/
def expire (b : Bus α) (ticket : Nat) : Bus α :=
  { b with channels := b.channels.map (·.giveUp ticket) }

/-- Goes to the end of the line, with a ticket, and stays there. -/
def lineUp (b : Bus α) (id : ChannelId) (item : α) : Bus α × Delivery :=
  let c := (b.channel id).wait ⟨b.delivered.length, item⟩
  ({ b.setChannel id c with delivered := b.delivered ++ [false] }, .waiting)

/-- Publishes an item on a channel. -/
def deliver (b : Bus α) (id : ChannelId) (item : α) (mode : Mode) : Bus α × Delivery :=
  match mode with
  | .immediate => b.offer id item
  | .untilRoom =>
    -- with room the item is put in place, and nobody has a turn
    if (b.channel id).isFull then
      let (b, delivery) := b.lineUp id item
      (b.turn, delivery)
    else b.offer id item
  | .within seconds =>
    -- whoever has been woken goes first
    let b := b.turn
    if seconds.isAtMost 0 then (b.setChannel id (b.channel id).drop, .dropped)
    else if seconds = .infinite false ∧ (b.channel id).isFull then b.lineUp id item
    else b.offer id item

/-- Publishes an item under a name. -/
def publish (b : Bus α) (name : Text) (item : α) (mode : Mode) : Bus α × Delivery :=
  let (b, id) := b.subscribe name
  b.deliver id item mode

/-- Takes the first item of a channel. -/
def get (b : Bus α) (id : ChannelId) : Bus α × Option α :=
  match (b.channel id).get? with
  | some (item, c) => (b.setChannel id c, some item)
  | none => (b, none)

/-- Takes all items of a channel.  Nobody has a turn in between. -/
def drain (b : Bus α) (id : ChannelId) : Bus α × List α :=
  let items := (b.channel id).queue
  (items.foldl (fun b _ => (b.get id).1) b, items)

/-- The depth, the dropped items and the capacity of each named channel. -/
def metrics (b : Bus α) : List (Text × Nat × Nat × Int) :=
  b.names.map fun (name, id) =>
    let c := b.channel id
    (name, c.depth, c.dropped, c.capacity)

/-! ## Transition system -/

/-- A move. -/
inductive Action (α : Type) where
  | register (name : Text) (capacity : Option Int)
  | subscribe (name : Text)
  | publish (name : Text) (item : α) (mode : Mode)
  | start (name : Text) (item : α)
  | expire (ticket : Nat)
  | get (id : ChannelId)
  | turn

/-- The bus after a move. -/
def step (b : Bus α) : Action α → Bus α
  | .register name capacity => (b.register name capacity).1
  | .subscribe name => (b.subscribe name).1
  | .publish name item mode => (b.publish name item mode).1
  | .start name item => (b.start name item).1
  | .expire ticket => b.expire ticket
  | .get id => (b.get id).1
  | .turn => b.turn

/-- The bus after some moves. -/
def run (b : Bus α) (actions : List (Action α)) : Bus α := actions.foldl step b

end Bus

end SignedEvents
