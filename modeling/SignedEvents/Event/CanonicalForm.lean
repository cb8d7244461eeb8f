import SignedEvents.Crypto.Sha256
import SignedEvents.Event.Basic
import SignedEvents.Log

/-! # The canonical form of an event

  What is hashed and signed: the fields that a signature covers, as one JSON array without
  blanks, in UTF-8.

  - **Event.canonicalText** — the JSON array.
  - **Event.canonicalBytes?** — its bytes, unless a signed string holds a surrogate.
  - **Event.digest?** — their SHA-256.
  - **Event.canonicalize** — the bytes, with a record where there are none.
-/

namespace SignedEvents

/-- The number in the place of the id. -/
def canonicalVersion : Int := 0

/-- The wording of a record about a form that cannot be made. -/
def canonicalRefusal (idPrefix why : Text) : Text :=
  "event " ++ idPrefix ++ " could not be canonicalized: " ++ why

/-- Why there are no bytes: a signed string holds a surrogate. -/
def notEncodable : Text := "content is not valid UTF-8"

/-- Why there is no array: a field has the wrong type. -/
def wrongTypes : Text := "non-canonical field types"

namespace Event

/-- The signed fields as a JSON value. -/
def canonicalValue (e : Event) : Json.Value :=
  .arr [.int canonicalVersion, .str e.pubkey, wordValue e.createdAt, wordValue e.kind,
    tagsValue e.tags, .str e.content]

/-- The signed fields as JSON text. -/
def canonicalText (e : Event) : Text := Json.print .compact e.canonicalValue

/-- The bytes of the canonical form, unless a signed string holds a surrogate. -/
def canonicalBytes? (e : Event) : Option Bytes := Utf8.encode? e.canonicalText

/-- The SHA-256 of the canonical form. -/
def digest? (e : Event) : Option Bytes := e.canonicalBytes?.map Sha256.hash

/-- The bytes of the canonical form, with a record where there are none. -/
def canonicalize (e : Event) : Trace (Option Bytes) :=
  match e.canonicalBytes? with
  | some bytes => pure (some bytes)
  | none => do
    Trace.log .canonicalForm .info (canonicalRefusal e.idPrefix notEncodable)
    pure none

/-- The canonical form as text, with a record where there is none. -/
def canonicalForm (e : Event) : Trace (Option Text) := do
  match ← e.canonicalize with
  | some _ => pure (some e.canonicalText)
  | none => pure none

/-- The SHA-256 of the canonical form, with a record where there is none. -/
def digest (e : Event) : Trace (Option Bytes) := do
  match ← e.canonicalize with
  | some bytes => pure (some (Sha256.hash bytes))
  | none => pure none

end Event

end SignedEvents
