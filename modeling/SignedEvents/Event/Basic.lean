import SignedEvents.Json.Printer
import SignedEvents.Json.Reader
import SignedEvents.Problem

/-! # Events

  An event is a signed record of a peer.  Every field is only claimed until the event has been
  examined.

  - **Event** — the seven fields.
  - **Event.ofValue**, **Event.read** — an event from a JSON value, from JSON text or bytes.
  - **Event.toValue**, **Event.wireText?** — the JSON form of an event, fields in order.
  - **Event.eventTags**, **Event.pubkeyTags** — what the tags refer to.
-/

namespace SignedEvents

/-- A label and what it is about. -/
abbrev Tag := List Text

/-- A signed record of a peer. -/
structure Event where
  id        : Text
  pubkey    : Text
  createdAt : UInt64
  kind      : UInt64
  tags      : List Tag
  content   : Text
  sig       : Text
  deriving DecidableEq

namespace Event

open Json (Value Members)

/-! ## From JSON -/

/-- Tags: an array of arrays of strings.  Null stands for none. -/
def checkTags : Value → Checked (List Tag)
  | .null => .ok []
  | v => Checked.array (Checked.array Checked.string) v

/-- The tags of an object.  Without the member there are none. -/
def tagsOf (members : Members) : Checked (List Tag) :=
  match members.get? "tags" with
  | some v => (checkTags v).under (.name "tags")
  | none => .ok []

/-- The event of an object's members.  Other members are ignored. -/
def ofMembers (members : Members) : Checked Event :=
  let id := Checked.member members "id" Checked.string
  let pubkey := Checked.member members "pubkey" Checked.string
  let createdAt := Checked.member members "created_at" Checked.word
  let kind := Checked.member members "kind" Checked.word
  let tags := tagsOf members
  let content := Checked.member members "content" Checked.string
  let sig := Checked.member members "sig" Checked.string
  match id, pubkey, createdAt, kind, tags, content, sig with
  | .ok id, .ok pubkey, .ok createdAt, .ok kind, .ok tags, .ok content, .ok sig =>
    .ok { id, pubkey, createdAt, kind, tags, content, sig }
  | _, _, _, _, _, _, _ =>
    .error (id.problems ++ pubkey.problems ++ createdAt.problems ++ kind.problems ++
      tags.problems ++ content.problems ++ sig.problems)

/-- The event of a value. -/
def ofValue : Value → Checked Event
  | .obj members => ofMembers members
  | _ => Checked.fail .notObject

/-- Why JSON gives no event. -/
inductive ReadError where
  | json (e : Json.Error)
  | shape (problems : List Problem)

/-- The event of a JSON text or of some bytes. -/
def read (source : Json.Source) : Except ReadError Event :=
  match Json.read .wire source with
  | .error e => .error (.json e)
  | .ok v =>
    match ofValue v with
    | .error ps => .error (.shape ps)
    | .ok e => .ok e

/-! ## To JSON -/

/-- The JSON form of tags. -/
def tagsValue (tags : List Tag) : Value := .arr (tags.map fun tag => .arr (tag.map .str))

/-- The JSON form of a word. -/
def wordValue (w : UInt64) : Value := .int w.toNat

/-- The JSON form of an event. -/
def toValue (e : Event) : Value :=
  .obj [("id", .str e.id), ("pubkey", .str e.pubkey), ("created_at", wordValue e.createdAt),
    ("kind", wordValue e.kind), ("tags", tagsValue e.tags), ("content", .str e.content),
    ("sig", .str e.sig)]

/-- Does a string of the event hold a surrogate? -/
def hasSurrogate (e : Event) : Bool :=
  e.id.hasSurrogate || e.pubkey.hasSurrogate || e.tags.any (·.any Text.hasSurrogate) ||
    e.content.hasSurrogate || e.sig.hasSurrogate

/-- The JSON text of an event, unless a string of it holds a surrogate. -/
def wireText? (e : Event) : Option Text :=
  if e.hasSurrogate then none else some (Json.print .compact e.toValue)

/-! ## Views -/

/-- The start of the id, for messages. -/
def idPrefix (e : Event) : Text := e.id.take 8

/-- The second entries of the tags with a label. -/
def tagValues (e : Event) (label : Text) : List Text :=
  e.tags.filterMap fun tag =>
    match tag with
    | name :: value :: _ => if name = label then some value else none
    | _ => none

/-- The events that the tags refer to. -/
def eventTags (e : Event) : List Text := e.tagValues "e"

/-- The public keys that the tags refer to. -/
def pubkeyTags (e : Event) : List Text := e.tagValues "p"

/-- Do the tags refer to an event? -/
def refersToEvent (e : Event) (id : Text) : Bool := e.eventTags.contains id

/-- Do the tags refer to a public key? -/
def refersToPubkey (e : Event) (key : Text) : Bool := e.pubkeyTags.contains key

end Event

end SignedEvents
