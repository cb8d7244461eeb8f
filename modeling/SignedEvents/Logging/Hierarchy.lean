import SignedEvents.Files.Tree
import SignedEvents.Logging.Level

/-! # The hierarchy of loggers

  Loggers have dotted names.  A logger finds the one above it when it is made: the nearest among
  the names that its own name continues after a dot, or else the root.  A name among these that
  is no logger yet waits, and takes over the loggers below it when it becomes one.

  - **Logger** — level, sinks, whether records are passed on, and the logger above.
  - **Registry** — all loggers, what they have written, and the files there are.
  - **Registry.enroll** — the registry with a logger of some name.
  - **Registry.chain** — a logger and those above it.
  - **Registry.consider** — whether a logger makes records of a level.
-/

namespace SignedEvents

/-- Where records are written. -/
inductive Sink where
  | stream
  | file (place : Files.Place)
  deriving DecidableEq

/-- A logger. -/
structure Logger where
  name     : Text
  /-- The name of the logger above. -/
  above    : Option Text
  /-- The level; zero leaves it to the loggers above. -/
  level    : Int
  passesOn : Bool
  sinks    : List Sink
  /-- For which levels it has been found out whether records are made, since any logger got a
      level. -/
  findings : List (Int × Bool)
  deriving DecidableEq

/-- Loggers, what they have written, and the directories and files there are. -/
structure Registry where
  loggers : List Logger
  /-- The names that wait, with the loggers below them. -/
  waiting : List (Text × List Text)
  stream  : Text
  files   : Files.Tree Text

namespace Registry

/-- The name of the logger above all others. -/
def rootName : Text := "root"

/-- The name under which a logger is kept: without a name it is the one above all others. -/
def keyOf (name : Text) : Text := if name.isEmpty then rootName else name

/-- The logger above all others. -/
def rootLogger : Logger := ⟨rootName, none, warningLevel, true, [], []⟩

/-- A logger that nothing has been done to. -/
def fresh (name above : Text) : Logger := ⟨name, some above, 0, true, [], []⟩

/-- No loggers but the root. -/
def ofFiles (files : Files.Tree Text) : Registry := ⟨[rootLogger], [], [], files⟩

/-- The logger of a name, if there is one. -/
def find? (r : Registry) (name : Text) : Option Logger := r.loggers.find? (·.name = name)

/-- The logger of a name. -/
def logger (r : Registry) (name : Text) : Logger := (r.find? name).getD (fresh name rootName)

/-- Changes the logger of a name. -/
def modify (r : Registry) (name : Text) (f : Logger → Logger) : Registry :=
  { r with loggers := r.loggers.map fun l => if l.name = name then f l else l }

@[simp] theorem name_fresh (name above : Text) : (fresh name above).name = name := rfl

/-! ## Names above -/

/-- The offsets, last one first, of the dots that part a name.  A dot right before another one
    that does is passed over. -/
def partingDots (next : Option Nat) : List Nat → List Nat
  | [] => []
  | i :: rest =>
    if next = some (i + 1) then partingDots none rest else i :: partingDots (some i) rest

/-- The names that a dotted name continues, longest first. -/
def namesAbove (name : Text) : List Text :=
  let dots := name.zipIdx.filterMap fun (c, i) => if c.is '.' then some i else none
  ((partingDots none dots.reverse).filter (0 < ·)).map (name.take ·)

/-- Lets a name wait for a logger below it. -/
def await (r : Registry) (name below : Text) : Registry :=
  if r.waiting.any (·.1 = name) then
    { r with waiting := r.waiting.map fun w =>
        if w.1 = name && !w.2.contains below then (name, w.2 ++ [below]) else w }
  else { r with waiting := r.waiting ++ [(name, [below])] }

/-- The logger above a new one: the first of some names that is a logger, or else the root.  The
    names before it wait. -/
def findAbove (r : Registry) (name : Text) : List Text → Registry × Text
  | [] => (r, rootName)
  | candidate :: rest =>
    if (r.find? candidate).isSome then (r, candidate)
    else (r.await candidate name).findAbove name rest

/-- Puts a logger under a new one, unless the name of the logger above it starts with the new
    name. -/
def takeOver (r : Registry) (name below : Text) : Registry :=
  if ((r.logger below).above.getD []).startsWith name then r
  else r.modify below fun l => { l with above := some name }

/-- The registry with a logger of some name. -/
def enroll (r : Registry) (name : Text) : Registry :=
  if (r.find? name).isSome then r
  else
    let below := ((r.waiting.find? (·.1 = name)).map (·.2)).getD []
    let r := { r with waiting := r.waiting.filter (·.1 ≠ name) }
    let r := below.foldl (fun r child => r.takeOver name child) r
    let (r, above) := r.findAbove name (namesAbove name)
    { r with loggers := r.loggers ++ [fresh name above] }

/-! ## Chains -/

/-- A logger and those above it, nearest first, but no more than `count`. -/
def chainFrom (r : Registry) (name : Text) : (count : Nat) → List Logger
  | 0 => []
  | count + 1 =>
    let l := r.logger name
    match l.above with
    | none => [l]
    | some above => l :: r.chainFrom above count

/-- A logger and those above it, nearest first.  Each name but that of the root is shorter than
    the one before. -/
def chain (r : Registry) (name : Text) : List Logger := r.chainFrom name (name.length + 2)

/-- The level that counts for a logger: its own, or the nearest one above that is not zero. -/
def effectiveLevel (r : Registry) (name : Text) : Int :=
  ((r.chain name).findSome? fun l => if l.level = 0 then none else some l.level).getD 0

/-- The sinks of a logger and of those above it, up to one that does not pass records on. -/
def sinksOf : List Logger → List Sink
  | [] => []
  | l :: above => l.sinks ++ (if l.passesOn then sinksOf above else [])

/-! ## Levels -/

/-- Gives a logger a level.  All findings are forgotten. -/
def setLevel (r : Registry) (name : Text) (level : Int) : Registry :=
  let r := r.modify name fun l => { l with level }
  { r with loggers := r.loggers.map fun l => { l with findings := [] } }

/-- Does a logger make records of a level?  Records of level zero or below are never made.  A
    finding stands until some logger gets a level. -/
def consider (r : Registry) (name : Text) (level : Int) : Registry × Bool :=
  match (r.logger name).findings.find? (·.1 = level) with
  | some (_, finding) => (r, finding)
  | none =>
    let finding := decide (0 < level ∧ r.effectiveLevel name ≤ level)
    (r.modify name fun l => { l with findings := l.findings ++ [(level, finding)] }, finding)

end Registry

end SignedEvents
