import SignedEvents.Json.Source
import SignedEvents.Json.Token

/-! # Reading JSON text

  A stack machine reads tokens into a value.  The stack holds the arrays and objects that are
  still open; the state says what may come next.

  - **Rules** — the limits of a reader, and what it makes of repeated names.
  - **State**, **step** — the machine.
  - **readTokens** — runs the machine over all tokens.
  - **read** — reads a text, or bytes in any encoding of text.
-/

namespace SignedEvents.Json

/-! ## Rules -/

/-- What a reader makes of a name that an object repeats. -/
inductive RepeatedNames where
  /-- The object is refused. -/
  | refused
  /-- The first member of a name stands. -/
  | firstWins
  /-- The last value of a name stands, at the place of the first member. -/
  | lastWins
  deriving DecidableEq

/-- The limits of a reader, and what it makes of repeated names.  Without a number there is no
    limit. -/
structure Rules where
  depth    : Option Nat
  digits   : Option Nat
  repeated : RepeatedNames

/-- The rules for messages of peers. -/
def Rules.wire : Rules := ⟨some 1000, some 4300, .refused⟩

/-- Puts a member behind others, unless its name is there already. -/
def Members.insertNew (members : Members) (name : Text) (value : Value) : Members :=
  if members.any (·.1 = name) then members else members ++ [(name, value)]

/-- Puts a member behind others, or gives its value to the member of that name. -/
def Members.insert (members : Members) (name : Text) (value : Value) : Members :=
  if members.any (·.1 = name) then
    members.map fun m => if m.1 = name then (m.1, value) else m
  else members ++ [(name, value)]

/-- The first name, in order of appearance, that occurs before it as well. -/
def firstRepeated? (seen : List Text) : Members → Option Text
  | [] => none
  | (name, _) :: rest => if name ∈ seen then some name else firstRepeated? (name :: seen) rest

/-- The object of some members. -/
def RepeatedNames.object (policy : RepeatedNames) (members : Members) : Except Error Value :=
  match firstRepeated? [] members with
  | none => .ok (.obj members)
  | some name =>
    match policy with
    | .refused => .error (.repeatedName name)
    | .firstWins => .ok (.obj (members.foldl (fun ms m => Members.insertNew ms m.1 m.2) []))
    | .lastWins => .ok (.obj (members.foldl (fun ms m => Members.insert ms m.1 m.2) []))

/-! ## The machine -/

/-- An array or object that is still open.  Items and members stand last one first. -/
inductive Frame where
  /-- An array and its items so far. -/
  | items (done : List Value)
  /-- An object, its members so far, and the name that waits for its value. -/
  | member (done : Members) (name : Text)

/-- What may come next. -/
inductive State where
  /-- A value. -/
  | value (stack : List Frame)
  /-- The first item of an array, or its end. -/
  | firstItem (stack : List Frame)
  /-- The first name of an object, or its end. -/
  | firstName (stack : List Frame)
  /-- The next name of an object. -/
  | nextName (done : Members) (stack : List Frame)
  /-- The colon after a name. -/
  | colon (done : Members) (name : Text) (stack : List Frame)
  /-- A comma, or the end of an array. -/
  | afterItem (done : List Value) (stack : List Frame)
  /-- A comma, or the end of an object. -/
  | afterMember (done : Members) (stack : List Frame)
  /-- Nothing: the value is complete. -/
  | complete (value : Value)

/-- The state after a value has been read. -/
def settle (v : Value) : List Frame → State
  | [] => .complete v
  | .items done :: stack => .afterItem (v :: done) stack
  | .member done name :: stack => .afterMember ((name, v) :: done) stack

/-- The value of a number as it is written: an integer, unless there is a fraction or an
    exponent. -/
def Numeral.value (limit : Option Nat) (n : Numeral) : Except Error Value :=
  match n.fraction, n.exponent with
  | none, none =>
    let magnitude : Int := valueOf n.whole
    let value := Value.int (if n.negative then -magnitude else magnitude)
    match limit with
    | some most =>
      if n.whole.length > most then .error (.longInteger n.whole.length most) else .ok value
    | none => .ok value
  | fraction, exponent =>
    let digits := n.whole ++ fraction.getD []
    let shift : Int := exponent.getD 0 - (fraction.getD []).length
    .ok (.float (.ofDecimal n.negative (valueOf digits) digits.length shift))

/-- May one more array or object be opened inside a stack? -/
def Rules.hasRoom (rules : Rules) (stack : List Frame) : Bool :=
  match rules.depth with
  | some most => stack.length < most
  | none => true

/-- A token where a value is expected. -/
def stepValue (rules : Rules) (stack : List Frame) (t : Located) : Except Error State :=
  match t.token with
  | .openArray =>
    if rules.hasRoom stack then .ok (.firstItem stack) else .error (.tooDeep .array)
  | .openObject =>
    if rules.hasRoom stack then .ok (.firstName stack) else .error (.tooDeep .object)
  | .null => .ok (settle .null stack)
  | .bool b => .ok (settle (.bool b) stack)
  | .nan => .ok (settle (.float .nan) stack)
  | .infinity negative => .ok (settle (.float (.infinite negative)) stack)
  | .number n =>
    match n.value rules.digits with
    | .ok v => .ok (settle v stack)
    | .error e => .error e
  | .str s => .ok (settle (.str s) stack)
  | .brokenString cause place => .error (.malformed cause place)
  | _ => .error (.malformed .valueExpected t.place)

/-- A token where a name is expected. -/
def stepName (done : Members) (stack : List Frame) (t : Located) : Except Error State :=
  match t.token with
  | .str name => .ok (.colon done name stack)
  | .brokenString cause place => .error (.malformed cause place)
  | _ => .error (.malformed .nameExpected t.place)

/-- The state after the end of an object. -/
def closeObject (rules : Rules) (done : Members) (stack : List Frame) : Except Error State :=
  match rules.repeated.object done.reverse with
  | .ok v => .ok (settle v stack)
  | .error e => .error e

/-- One token. -/
def step (rules : Rules) (state : State) (t : Located) : Except Error State :=
  match state with
  | .value stack => stepValue rules stack t
  | .firstItem stack =>
    match t.token with
    | .closeArray => .ok (settle (.arr []) stack)
    | _ => stepValue rules (.items [] :: stack) t
  | .firstName stack =>
    match t.token with
    | .closeObject => closeObject rules [] stack
    | _ => stepName [] stack t
  | .nextName done stack => stepName done stack t
  | .colon done name stack =>
    match t.token with
    | .colon => .ok (.value (.member done name :: stack))
    | _ => .error (.malformed .colonExpected t.place)
  | .afterItem done stack =>
    match t.token with
    | .comma => .ok (.value (.items done :: stack))
    | .closeArray => .ok (settle (.arr done.reverse) stack)
    | _ => .error (.malformed .commaExpected t.place)
  | .afterMember done stack =>
    match t.token with
    | .comma => .ok (.nextName done stack)
    | .closeObject => closeObject rules done stack
    | _ => .error (.malformed .commaExpected t.place)
  | .complete v =>
    match t.token with
    | .endOfText => .ok (.complete v)
    | _ => .error (.malformed .extraData t.place)

/-- Runs the machine.  The last token of a text leaves it complete or in error. -/
def run (rules : Rules) (state : State) : List Located → Except Error State
  | [] => .ok state
  | t :: rest =>
    match step rules state t with
    | .ok next => run rules next rest
    | .error e => .error e

/-- The value of some tokens. -/
def readTokens (rules : Rules) (ts : List Located) : Except Error Value :=
  match run rules (.value []) ts with
  | .ok (.complete v) => .ok v
  | .ok _ => .error (.malformed .valueExpected .start)
  | .error e => .error e

/-! ## Texts and bytes -/

/-- The value of a text. -/
def readText (rules : Rules) (t : Text) : Except Error Value := readTokens rules (tokens t)

/-- The value of a text or of some bytes.  A text must not start with a byte-order mark; the one
    of bytes belongs to their encoding. -/
def read (rules : Rules) : Source → Except Error Value
  | .text t =>
    match t with
    | c :: _ =>
      if c.val = 0xFEFF then .error (.malformed .byteOrderMark .start) else readText rules t
    | [] => readText rules t
  | .bytes b =>
    match Encoding.decode b with
    | .ok t => readText rules t
    | .error e => .error (.undecodable e)

end SignedEvents.Json
