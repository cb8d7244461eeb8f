import SignedEvents.Event.Examination

/-! # Drafts of events

  A draft has the fields of an event, but nothing has checked their types, and a field may be
  missing.  It can be examined all the same; an operation that a value does not allow ends the
  examination.

  - **Draft** — seven fields of any value.
  - **Draft.ofMembers**, **Draft.ofEvent**, **Draft.replace** — how drafts come about.
  - **Draft.Defect** — what ends an examination.
  - **Draft.canonicalize**, **Draft.judge** — the operations on events, for drafts.
-/

namespace SignedEvents

open Json (Value Members)

/-- An event whose fields nothing has checked. -/
structure Draft where
  id        : Option Value
  pubkey    : Option Value
  createdAt : Option Value
  kind      : Option Value
  tags      : Value
  content   : Option Value
  sig       : Option Value

namespace Draft

/-- The draft of named values.  Without tags there are none; other names are ignored. -/
def ofMembers (members : Members) : Draft where
  id := members.get? "id"
  pubkey := members.get? "pubkey"
  createdAt := members.get? "created_at"
  kind := members.get? "kind"
  tags := (members.get? "tags").getD (.arr [])
  content := members.get? "content"
  sig := members.get? "sig"

/-- The draft of an event. -/
def ofEvent (e : Event) : Draft where
  id := some (.str e.id)
  pubkey := some (.str e.pubkey)
  createdAt := some (Event.wordValue e.createdAt)
  kind := some (Event.wordValue e.kind)
  tags := Event.tagsValue e.tags
  content := some (.str e.content)
  sig := some (.str e.sig)

/-- The draft with some fields replaced. -/
def replace (d : Draft) (members : Members) : Draft where
  id := members.get? "id" <|> d.id
  pubkey := members.get? "pubkey" <|> d.pubkey
  createdAt := members.get? "created_at" <|> d.createdAt
  kind := members.get? "kind" <|> d.kind
  tags := (members.get? "tags").getD d.tags
  content := members.get? "content" <|> d.content
  sig := members.get? "sig" <|> d.sig

/-! ## Defects -/

/-- What ends the examination of a draft. -/
inductive Defect where
  /-- A value does not allow an operation. -/
  | wrongType
  /-- A field is missing. -/
  | missingField
  /-- An integer is past the range of binary64 numbers. -/
  | integerTooLarge
  /-- A time is no number of seconds. -/
  | time (fault : ClockFault)
  deriving DecidableEq

/-- An examination that a defect may end. -/
abbrev Examination := ExceptT Defect Trace

/-- The value of a field. -/
def field (v : Option Value) : Examination Value :=
  match v with
  | some v => pure v
  | none => throw .missingField

/-! ## Canonical form -/

/-- Is this an integer of 64 bits without a sign? -/
def isWord : Value → Bool
  | .int n => 0 ≤ n && n ≤ 0xFFFFFFFFFFFFFFFF
  | _ => false

/-- Is this a string? -/
def isString : Value → Bool
  | .str _ => true
  | _ => false

/-- What a value holds when it is gone through: the items of an array, the names of an object,
    the code points of a string. -/
def elements : Value → Except Defect (List Value)
  | .arr items => .ok items
  | .obj members => .ok (members.map fun m => .str m.1)
  | .str t => .ok (t.map fun c => .str [c])
  | _ => .error .wrongType

/-- The tags as arrays of strings.  A tag that holds something else ends the reading, and the
    tags after it are not looked at. -/
def tagArrays : List Value → Except Defect (Option (List Value))
  | [] => .ok (some [])
  | tag :: rest =>
    match elements tag with
    | .error defect => .error defect
    | .ok items =>
      if items.all isString then
        match tagArrays rest with
        | .ok (some tags) => .ok (some (.arr items :: tags))
        | other => other
      else .ok none

/-- The signed fields as a JSON value, unless a field has the wrong type. -/
def canonicalValue (d : Draft) : Examination (Option Value) := do
  let createdAt ← field d.createdAt
  if !isWord createdAt then return none
  let kind ← field d.kind
  if !isWord kind then return none
  let pubkey ← field d.pubkey
  if !isString pubkey then return none
  let content ← field d.content
  if !isString content then return none
  let tags ← ofExcept (elements d.tags >>= tagArrays)
  return tags.map fun tags =>
    .arr [.int canonicalVersion, pubkey, createdAt, kind, .arr tags, content]

/-- The start of the id, for messages: the first eight code points of a string, or the first
    eight items of an array. -/
def idPrefix (d : Draft) : Examination Text := do
  match ← field d.id with
  | .str t => return t.take 8
  | .arr items => return Json.display (.arr (items.take 8))
  | _ => throw .wrongType

/-- The text and the bytes of the canonical form, with a record where there are none. -/
def canonicalize (d : Draft) : Examination (Option (Text × Bytes)) := do
  match ← d.canonicalValue with
  | none =>
    Trace.log .canonicalForm .info (canonicalRefusal (← d.idPrefix) wrongTypes)
    return none
  | some v =>
    let text := Json.print .compact v
    match Utf8.encode? text with
    | some bytes => return some (text, bytes)
    | none =>
      Trace.log .canonicalForm .info (canonicalRefusal (← d.idPrefix) notEncodable)
      return none

/-- The SHA-256 of the canonical form. -/
def digest (d : Draft) : Examination (Option Bytes) := do
  return (← d.canonicalize).map fun form => Sha256.hash form.2

/-! ## Examination -/

/-- Is a date later than a time? -/
def isLater (date : Value) (time : Int) : Except Defect Bool :=
  match date with
  | .int n => .ok (n > time)
  | .bool b => .ok ((if b then 1 else 0) > time)
  | .float x => .ok (x.exceeds time)
  | _ => .error .wrongType

/-- The whole seconds from a time to a date.  An infinite difference has no number of them. -/
def secondsAhead (date : Value) (now : Int) : Except Defect (Option Int) :=
  match date with
  | .int n => .ok (some (n - now))
  | .bool b => .ok (some ((if b then 1 else 0) - now))
  | .float x =>
    -- the difference is that of two binary64 numbers
    match Binary64.ofInt now with
    | .finite negative mantissa exponent =>
      .ok (x.sub (.finite negative mantissa exponent)).truncate?
    | _ => .error .integerTooLarge
  | _ => .error .wrongType

/-- The record about a date past the allowance.  It needs the seconds in its wording: without them
    there is none, and the date is refused all the same. -/
def logAhead (idPrefix : Text) : Option Int → Trace Unit
  | some seconds => Trace.log .examination .debug (aheadRecord idPrefix seconds)
  | none => pure ()

/-- The checks of the canonical form, the id and the signature. -/
def examine (d : Draft) : Examination Verdict := do
  match ← d.canonicalize with
  | none => return .fails .canonicalizationFailed none
  | some (_, bytes) =>
    let digest := Sha256.hash bytes
    let hex := Hex.encode digest
    let isSame := match ← field d.id with
      | .str id => id = hex
      | _ => false
    if !isSame then
      Trace.log .examination .debug (mismatchRecord (← d.idPrefix) hex)
      return .fails .idMismatch (some hex)
    let sig ← field d.sig
    let pubkey ← field d.pubkey
    if ← Schnorr.verifyValues digest sig pubkey then
      return .stands hex
    else
      Trace.log .examination .debug (signatureRecord (← d.idPrefix))
      return .fails .badSignature (some hex)

/-- All checks. -/
def judge (settings : Settings) (clock : Clock) (d : Draft) : Examination Verdict := do
  match settings.allowance with
  | none => d.examine
  | some allowance =>
    Trace.reading
    match clock.read with
    | .error fault => throw (.time fault)
    | .ok now =>
      let date ← field d.createdAt
      if ← ofExcept (isLater date (now + allowance)) then
        let start ← d.idPrefix
        let seconds? ← ofExcept (secondsAhead date now)
        logAhead start seconds?
        return .fails .futureTimestamp none
      else d.examine

end Draft

end SignedEvents
